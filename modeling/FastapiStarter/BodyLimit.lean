import FastapiStarter.Middleware

/-!
# The body cap counts bytes, not chunks

What an application receives on a connection is a sequence of answers, one for each
call of `receive`, and it sees nothing else of the connection.  Behind the body cap
an answer depends on the bytes that have come so far, however they were split.

## Main definitions

* `Arrivals`, `deliver`, `Receive.arrivals` — a connection as what it delivers.
* `handed` — what the calls of `limited_receive` yield.
* `bodyBefore`, `HandedOn` — the bytes of the first messages, and which pass.

## Main results

* `serve_arrivals` — **a connection is what it delivers**.
* `handed_eq` — **the law of the cap**, for each message.
* `body_cap_counts_bytes` — the law, for every application behind the middleware, and
  what follows from it.
-/

namespace FastapiStarter.Web

open Interaction

/-! ### What a connection delivers -/

section arrivals

/-- The answers to the calls of `receive`, one after the other. -/
abbrev Arrivals := ℕ → Except Exc Message

/-- The connection that delivers them. -/
def deliver (f : Arrivals) : Receive ℕ := fun n => (f n, n + 1)

variable {σ ℓ : Type}

/-- The state of a connection after some calls. -/
def Receive.state (recv : Receive σ) (s : σ) : ℕ → σ
  | 0 => s
  | n + 1 => (recv (Receive.state recv s n)).2

/-- What a connection delivers. -/
def Receive.arrivals (recv : Receive σ) (s : σ) : Arrivals :=
  fun n => (recv (Receive.state recv s n)).1

variable {recv : Receive σ}

/-- **A connection is what it delivers**: an application cannot tell two connections
apart that answer its calls in the same way. -/
theorem serve_arrivals {α : Type} (p : Part α) (w : World σ) :
    serve recv p w =
      let r := serve (deliver (recv.arrivals w.incoming)) p { w with incoming := 0 }
      (r.1, { r.2 with incoming := recv.state w.incoming r.2.incoming }) := by
  -- the run keeps: the state of the connection is the one after the calls made so far
  have hstep : ∀ o (s : World σ) (t : World ℕ),
      s = { t with incoming := recv.state w.incoming t.incoming } →
      (answer recv o s).1 = (answer (deliver (recv.arrivals w.incoming)) o t).1 ∧
        (answer recv o s).2 =
          { (answer (deliver (recv.arrivals w.incoming)) o t).2 with
            incoming := recv.state w.incoming
              (answer (deliver (recv.arrivals w.incoming)) o t).2.incoming } := by
    rintro o s t rfl
    rcases o with (_ | m | name) | event | _ | _ | _ | _ | _ <;> exact ⟨rfl, rfl⟩
  obtain ⟨hret, hworld⟩ := Prog.exec_rel hstep p (s := w.fresh)
    (t := ({ w with incoming := 0 } : World ℕ).fresh) rfl
  exact Prod.ext hret hworld

/-- What comes through a replaced `receive` depends on what is delivered to it. -/
theorem state_behind (h : ℓ → Message → Except Exc Message × ℓ) (l : ℓ) (s : σ) (n : ℕ) :
    (recv.behind h).state (l, s) n =
      ((((deliver (recv.arrivals s)).behind h).state (l, 0) n).1, recv.state s n) ∧
    (((deliver (recv.arrivals s)).behind h).state (l, 0) n).2 = n := by
  induction n with
  | zero => exact ⟨rfl, rfl⟩
  | succ n ih =>
    obtain ⟨hstate, hcount⟩ := ih
    rcases hs : ((deliver (recv.arrivals s)).behind h).state (l, 0) n with ⟨l', n'⟩
    rw [hs] at hstate hcount
    obtain rfl : n' = n := hcount
    simp only [Receive.state, hstate, hs, Receive.behind, deliver, Receive.arrivals]
    rcases recv (recv.state s n') with ⟨exc | m, s'⟩ <;> exact ⟨rfl, rfl⟩

theorem arrivals_behind (h : ℓ → Message → Except Exc Message × ℓ) (l : ℓ) (s : σ) :
    (recv.behind h).arrivals (l, s) =
      ((deliver (recv.arrivals s)).behind h).arrivals (l, 0) := by
  funext n
  obtain ⟨hstate, hcount⟩ := @state_behind σ ℓ recv h l s n
  rcases hs : ((deliver (recv.arrivals s)).behind h).state (l, 0) n with ⟨l', n'⟩
  rw [hs] at hstate hcount
  obtain rfl : n' = n := hcount
  simp only [Receive.arrivals, hstate, hs, Receive.behind, deliver]
  rcases recv (recv.state s n') with ⟨exc | m, s'⟩ <;> rfl

end arrivals

/-! ### The bytes of the messages -/

/-- `message["type"] == "http.request"`. -/
def Message.isRequest : Message → Bool
  | .request _ _ => true
  | _ => false

/-- `len(message.get("body", b""))`; only an `http.request` has a body that comes in. -/
def Message.bodyLength : Message → ℕ
  | .request bytes _ => bytes.length
  | _ => 0

/-- The bytes that an answer brings; an exception brings none. -/
def bytesOf : Except Exc Message → ℕ
  | .ok m => m.bodyLength
  | .error _ => 0

/-- The bytes of the first answers. -/
def bodyBefore (f : Arrivals) : ℕ → ℕ
  | 0 => 0
  | n + 1 => bodyBefore f n + bytesOf (f n)

/-- The 413 that is raised. -/
def tooLarge : Exc := .http 413 (some (text "Request body too large.")) none

/-- What the calls of `limited_receive` yield, on a connection. -/
def handed (maxBytes : ℤ) (f : Arrivals) : Arrivals :=
  ((deliver f).behind (limitedReceive maxBytes)).arrivals (0, 0)

/-- The first messages are all handed on. -/
def HandedOn (maxBytes : ℤ) (f : Arrivals) (n : ℕ) : Prop :=
  ∀ k < n, handed maxBytes f k = f k

/-! ### The law of the cap -/

section law

variable {maxBytes : ℤ} {f g : Arrivals} {k n n' : ℕ}

theorem bodyBefore_mono (h : n ≤ n') : bodyBefore f n ≤ bodyBefore f n' := by
  induction h with
  | refl => exact le_rfl
  | step _ ih => exact ih.trans (Nat.le_add_right _ _)

/-- One call: a message that is no `http.request` passes and does not count, one that is
counts before it is compared with the cap. -/
theorem limitedReceive_eq (received : ℕ) (m : Message) :
    limitedReceive maxBytes received m =
      (if m.isRequest = true ∧ maxBytes < (received + m.bodyLength : ℕ) then .error tooLarge
        else .ok m, ((received + m.bodyLength : ℕ) : ℤ)) := by
  cases m with
  | request body moreBody =>
    simp only [limitedReceive, Message.isRequest, Message.bodyLength, true_and, Nat.cast_add]
    split <;> rfl
  | _ => simp [limitedReceive, Message.isRequest, Message.bodyLength]

/-- **The variable `received`** holds the bytes of all messages so far, also of those
that were not handed on. -/
theorem state_limitedReceive (maxBytes : ℤ) (f : Arrivals) (n : ℕ) :
    ((deliver f).behind (limitedReceive maxBytes)).state (0, 0) n = (↑(bodyBefore f n), n) := by
  induction n with
  | zero => rfl
  | succ n ih =>
    simp only [Receive.state, ih, Receive.behind, deliver, bodyBefore]
    rcases f n with exc | m
    · simp [bytesOf]
    · simp only [limitedReceive_eq, bytesOf]

/-- **The law of the cap**: a message is handed on unless it is an `http.request` with
which the bytes are more than the cap. -/
theorem handed_eq (maxBytes : ℤ) (f : Arrivals) (k : ℕ) :
    handed maxBytes f k =
      match f k with
      | .ok m => if m.isRequest = true ∧ maxBytes < bodyBefore f (k + 1) then .error tooLarge
          else .ok m
      | .error exc => .error exc := by
  rw [handed, Receive.arrivals, state_limitedReceive]
  rcases hf : f k with exc | m
  · simp only [Receive.behind, deliver, hf]
  · simp only [Receive.behind, deliver, bodyBefore, hf, limitedReceive_eq, bytesOf]

theorem handed_of_le (h : (bodyBefore f (k + 1) : ℤ) ≤ maxBytes) : handed maxBytes f k = f k := by
  rw [handed_eq]
  rcases f k with exc | m
  · rfl
  · exact if_neg fun hm => absurd h (not_le.mpr hm.2)

theorem handed_of_request {m : Message} (hf : f k = .ok m) (hm : m.isRequest = true)
    (h : maxBytes < bodyBefore f (k + 1)) : handed maxBytes f k = .error tooLarge := by
  rw [handed_eq, hf]
  exact if_pos ⟨hm, h⟩

/-- What is handed on has no more bytes than what has come. -/
theorem bytesOf_handed_le : bytesOf (handed maxBytes f k) ≤ bytesOf (f k) := by
  rw [handed_eq]
  rcases f k with exc | m
  · exact le_rfl
  · dsimp only
    split
    · exact Nat.zero_le _
    · exact le_rfl

theorem bodyBefore_handed_le : bodyBefore (handed maxBytes f) n ≤ bodyBefore f n := by
  induction n with
  | zero => exact le_rfl
  | succ n ih => exact Nat.add_le_add ih bytesOf_handed_le

theorem isRequest_of_bodyLength {m : Message} (h : m.bodyLength ≠ 0) : m.isRequest = true := by
  cases m with
  | request => rfl
  | _ => exact absurd rfl h

/-- **The bytes that are handed on never exceed the cap.** -/
theorem bodyBefore_handed (h : 0 ≤ maxBytes) :
    (bodyBefore (handed maxBytes f) n : ℤ) ≤ maxBytes := by
  induction n with
  | zero => exact h
  | succ n ih =>
    by_cases hle : (bodyBefore f (n + 1) : ℤ) ≤ maxBytes
    · have hbytes : bodyBefore (handed maxBytes f) (n + 1) ≤ bodyBefore f (n + 1) :=
        bodyBefore_handed_le
      omega
    · -- with this message the bytes are too many, so it brings none
      have hnone : bytesOf (handed maxBytes f n) = 0 := by
        rw [handed_eq]
        rcases f n with exc | m
        · rfl
        · by_cases hm : m.isRequest = true
          · simp [hm, not_le.mp hle, bytesOf]
          · simp only [hm, false_and, if_false, Bool.false_eq_true]
            by_contra hne
            exact hm (isRequest_of_bodyLength hne)
      rw [bodyBefore, hnone]
      exact ih

theorem handedOn_of_le (h : (bodyBefore f n : ℤ) ≤ maxBytes) : HandedOn maxBytes f n := by
  intro k hk
  have hmono : bodyBefore f (k + 1) ≤ bodyBefore f n := bodyBefore_mono hk
  exact handed_of_le (by omega)

/-- Some bytes are brought by the last message that brings any. -/
theorem exists_last_request (h : bodyBefore f n ≠ 0) :
    ∃ k < n, (∃ m, f k = .ok m ∧ m.isRequest = true) ∧ bodyBefore f (k + 1) = bodyBefore f n := by
  induction n with
  | zero => exact absurd rfl h
  | succ n ih =>
    by_cases hzero : bytesOf (f n) = 0
    · have hsame : bodyBefore f (n + 1) = bodyBefore f n := by rw [bodyBefore, hzero, Nat.add_zero]
      rw [hsame] at h ⊢
      obtain ⟨k, hk, hm, heq⟩ := ih h
      exact ⟨k, Nat.lt_succ_of_lt hk, hm, heq⟩
    · refine ⟨n, Nat.lt_succ_self n, ?_, rfl⟩
      rcases hf : f n with exc | m
      · rw [hf] at hzero
        exact absurd rfl hzero
      · rw [hf] at hzero
        exact ⟨m, rfl, isRequest_of_bodyLength hzero⟩

/-- **A request is handed on exactly if its bytes do not exceed the cap.** -/
theorem handedOn_iff (h : 0 ≤ maxBytes) :
    HandedOn maxBytes f n ↔ (bodyBefore f n : ℤ) ≤ maxBytes := by
  refine ⟨fun hon => ?_, handedOn_of_le⟩
  by_contra hgt
  have hne : bodyBefore f n ≠ 0 := by omega
  obtain ⟨k, hk, ⟨m, hf, hm⟩, heq⟩ := exists_last_request hne
  have hrejected : handed maxBytes f k = .error tooLarge := handed_of_request hf hm (by omega)
  rw [hon k hk, hf] at hrejected
  cases hrejected

end law

/-- **The body cap counts bytes, not chunks.** An application behind the middleware
receives what the law hands on, however often it calls `receive`, also when a call has
raised; and for a cap that is not negative the number of bytes is all that matters. -/
theorem body_cap_counts_bytes (maxBytes : ℤ) :
    (∀ {σ : Type} (recv : Receive σ) (app : App) (w : World σ),
      serve recv (bodySizeLimitMiddleware maxBytes app) w =
        let r := serve (deliver (handed maxBytes (recv.arrivals w.incoming))) app
          { w with incoming := 0 }
        (r.1, { r.2 with incoming := recv.state w.incoming r.2.incoming })) ∧
    (∀ f k m, f k = .ok m → handed maxBytes f k =
      if m.isRequest = false ∨ bodyBefore f (k + 1) ≤ maxBytes then .ok m else .error tooLarge) ∧
    (∀ f n, bodyBefore f n = maxBytes → HandedOn maxBytes f n) ∧
    (0 ≤ maxBytes → ∀ f n, bodyBefore (handed maxBytes f) n ≤ maxBytes) ∧
    (0 ≤ maxBytes → ∀ f g n n', bodyBefore f n = bodyBefore g n' →
      (HandedOn maxBytes f n ↔ HandedOn maxBytes g n')) ∧
    (maxBytes < 0 → ∀ f k m, f k = .ok m → m.isRequest = true →
      handed maxBytes f k = .error tooLarge) := by
  refine ⟨fun recv app w => ?_, fun f k m hf => ?_, fun f n hn => handedOn_of_le hn.le,
    fun h f n => bodyBefore_handed h, fun h f g n n' heq => ?_, fun h f k m hf hm => ?_⟩
  · rw [serve_bodySizeLimitMiddleware, serve_arrivals]
    have harrive : (recv.behind (limitedReceive maxBytes)).arrivals (w.behind 0).incoming =
        handed maxBytes (recv.arrivals w.incoming) := arrivals_behind _ _ _
    rw [harrive]
    refine Prod.ext rfl ?_
    simp only [World.front, show (w.behind (0 : ℤ)).incoming = (0, w.incoming) from rfl]
    rw [(state_behind (limitedReceive maxBytes) 0 w.incoming _).1]
    rfl
  · rw [handed_eq, hf]
    by_cases hm : m.isRequest = true
    · by_cases hle : (bodyBefore f (k + 1) : ℤ) ≤ maxBytes
      · simp [hle, not_lt.mpr hle]
      · simp [hm, hle, not_le.mp hle]
    · simp [hm]
  · rw [handedOn_iff h, handedOn_iff h, heq]
  · exact handed_of_request hf hm (h.trans_le (Int.natCast_nonneg _))

/-- A request whose first message is the given one. -/
def startingWith (m : Message) : Arrivals := fun n => .ok (if n = 0 then m else .disconnect)

/-- **A negative cap** is exceeded by no bytes at all, and tells an empty body from none. -/
theorem negative_cap_exceeded :
    ¬ ((bodyBefore (handed (-1) (startingWith .disconnect)) 1 : ℤ) ≤ -1) ∧
    bodyBefore (startingWith (.request [] false)) 1 = bodyBefore (startingWith .disconnect) 1 ∧
    HandedOn (-1) (startingWith .disconnect) 1 ∧
    ¬ HandedOn (-1) (startingWith (.request [] false)) 1 := by
  refine ⟨by omega, rfl, fun k hk => ?_, fun h => ?_⟩
  · obtain rfl : k = 0 := by omega
    rw [handed_eq]
    rfl
  · cases h 0 Nat.one_pos

end FastapiStarter.Web
