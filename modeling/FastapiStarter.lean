import FastapiStarter.Execution
import FastapiStarter.Outcomes
import FastapiStarter.History
import FastapiStarter.Families
import FastapiStarter.Rotation
import FastapiStarter.Passwords
import FastapiStarter.Protocol
import FastapiStarter.Revocation
import FastapiStarter.Reuse
import FastapiStarter.PasswordRace
import FastapiStarter.LoginSecrecy
import FastapiStarter.TokenKinds
import FastapiStarter.Frames
import FastapiStarter.RevocationKept
import FastapiStarter.Atomicity
import FastapiStarter.PasswordConflict
import FastapiStarter.Registration
import FastapiStarter.Lib.Encoding
import FastapiStarter.Lib.Keyset
import FastapiStarter.Pagination
import FastapiStarter.ReadModel
import FastapiStarter.Lib.FixedWindow
import FastapiStarter.RateLimiter
import FastapiStarter.RateWindows
import FastapiStarter.Asgi
import FastapiStarter.Correlation
import FastapiStarter.ErrorContract
import FastapiStarter.SecurityHeaders
import FastapiStarter.AccessLog
import FastapiStarter.Address
import FastapiStarter.BodyLimit
import FastapiStarter.Cursor
import FastapiStarter.Doubles
import FastapiStarter.EventDelivery
import FastapiStarter.Fidelity
import FastapiStarter.Lib.Mapper
import FastapiStarter.Persistence
import FastapiStarter.ProblemHeaders
import FastapiStarter.RetryAfter
import FastapiStarter.TokenExpiry
import FastapiStarter.Entities
import FastapiStarter.ErrorMapping
import FastapiStarter.Conduct
import FastapiStarter.Lib.Progress
import FastapiStarter.Races
import FastapiStarter.Routes
import FastapiStarter.AccessTokens
import FastapiStarter.Announcements
import FastapiStarter.Clients
import FastapiStarter.Isolation
import FastapiStarter.Service
import FastapiStarter.Guessing
import FastapiStarter.Availability
