import Mathlib.Data.List.Basic

/-! Programs that read a source byte by byte, and give up when it has no byte for them. A program
is related to the string that it reads.
-/

namespace ByteSource

--------------------------------------------------
-- Sources
--------------------------------------------------

/-- A source of bytes: its next byte, or none for the moment. -/
structure Source (σ : Type) where
  get : σ → Option UInt8 × σ

/-- A source that gives the bytes of a list. -/
def ofList : Source (List UInt8) :=
  ⟨fun
    | [] => (none, [])
    | b :: rest => (some b, rest)⟩

section Delivers

variable {σ : Type} (src : Source σ) (dry last : σ → Prop)

/-- The source gives the bytes in order and is `last` behind them, or it runs dry on the way. -/
def Delivers : σ → List UInt8 → Prop
  | d, [] => last d
  | d, b :: rest =>
      match src.get d with
      | (some c, d) => c = b ∧ Delivers d rest
      | (none, d) => dry d

/-- A dry source gives no byte any more. -/
def StaysDry : Prop := ∀ d, dry d → (src.get d).1 = none ∧ dry (src.get d).2

variable {src dry last}

theorem Delivers.cons {d : σ} {b : UInt8} {rest : List UInt8}
    (delivers : Delivers src dry last d (b :: rest))
    : (∃ d', src.get d = (some b, d') ∧ Delivers src dry last d' rest)
      ∨ ∃ d', src.get d = (none, d') ∧ dry d' := by
  rw [Delivers] at delivers
  split at delivers
  case h_1 c d' got =>
    obtain ⟨rfl, delivers⟩ := delivers
    exact .inl ⟨d', got, delivers⟩
  case h_2 d' got => exact .inr ⟨d', got, delivers⟩

/-- A weaker end, by induction on the bytes. -/
theorem Delivers.mono {last' : σ → Prop} {d : σ} {bytes : List UInt8}
    (delivers : Delivers src dry last d bytes) (imp : ∀ d, last d → last' d)
    : Delivers src dry last' d bytes := by
  induction bytes generalizing d with
  | nil => exact imp d delivers
  | cons b bytes ih =>
      rw [Delivers] at delivers ⊢
      split at delivers
      · exact ⟨delivers.1, ih delivers.2⟩
      · exact delivers

/-- What is delivered in two parts, by induction on the first one. -/
theorem Delivers.append {d : σ} {front back : List UInt8}
    (delivers : Delivers src dry (fun d => Delivers src dry last d back) d front)
    : Delivers src dry last d (front ++ back) := by
  induction front generalizing d with
  | nil => exact delivers
  | cons b front ih =>
      rw [List.cons_append, Delivers]
      rw [Delivers] at delivers
      split at delivers
      · exact ⟨delivers.1, ih delivers.2⟩
      · exact delivers

/-- A list delivers what it begins with. -/
theorem delivers_ofList (front back : List UInt8)
    : Delivers ofList (fun _ => False) (· = back) (front ++ back) front := by
  induction front with
  | nil => rfl
  | cons b front ih => exact ⟨rfl, ih⟩

end Delivers

--------------------------------------------------
-- Programs
--------------------------------------------------

/-- A source, and what a program computes of the bytes that it reads. -/
structure Reader (σ κ : Type) where
  source : σ
  state : κ

/-- A program that reads from a source: its value, or none when it gave up. -/
def Reading (σ κ α : Type) : Type := Reader σ κ → Option α × Reader σ κ

namespace Reading

variable {σ κ α β : Type}

instance : Monad (Reading σ κ) where
  pure a := fun r => (some a, r)
  bind m f := fun r =>
    match m r with
    | (some a, r) => f a r
    | (none, r) => (none, r)

/-- The next byte of the source. -/
def byte (src : Source σ) : Reading σ κ UInt8 := fun r =>
  let (b, source) := src.get r.source
  (b, { r with source })

/-- Giving up. -/
def giveUp : Reading σ κ α := fun r => (none, r)

/-- Giving up unless a condition holds. -/
def check (c : Prop) [Decidable c] : Reading σ κ Unit := if c then pure () else giveUp

/-- What was computed so far. -/
def state : Reading σ κ κ := fun r => (some r.state, r)

/-- A step of the computation. -/
def modify (f : κ → κ) : Reading σ κ Unit := fun r => (some (), { r with state := f r.state })

@[simp]
theorem pure_apply (a : α) (r : Reader σ κ) : (pure a : Reading σ κ α) r = (some a, r) := rfl

@[simp]
theorem bind_apply (m : Reading σ κ α) (f : α → Reading σ κ β) (r : Reader σ κ)
    : (m >>= f) r
      = match m r with
        | (some a, r) => f a r
        | (none, r) => (none, r) :=
  rfl

@[simp]
theorem byte_apply (src : Source σ) (r : Reader σ κ)
    : byte src r = ((src.get r.source).1, ⟨(src.get r.source).2, r.state⟩) :=
  rfl

@[simp]
theorem giveUp_apply (r : Reader σ κ) : (giveUp : Reading σ κ α) r = (none, r) := rfl

@[simp]
theorem state_apply (r : Reader σ κ) : state r = (some r.state, r) := rfl

@[simp]
theorem modify_apply (f : κ → κ) (r : Reader σ κ)
    : modify f r = (some (), ⟨r.source, f r.state⟩) :=
  rfl

end Reading

section Retains

variable {σ κ α β : Type} {src : Source σ} {Q : σ → Prop}

/-- What a program reads keeps a property of the source. -/
def Retains (Q : σ → Prop) (m : Reading σ κ α) : Prop := ∀ r, Q r.source → Q (m r).2.source

theorem Retains.pure (a : α) : Retains Q (pure a : Reading σ κ α) := fun _ start => start

theorem Retains.state : Retains Q (Reading.state : Reading σ κ κ) := fun _ start => start

theorem Retains.modify (f : κ → κ) : Retains Q (Reading.modify f : Reading σ κ Unit) :=
  fun _ start => start

theorem Retains.check (c : Prop) [Decidable c] : Retains Q (Reading.check c : Reading σ κ Unit) := by
  intro r start
  rw [Reading.check]
  split <;> exact start

theorem Retains.byte (kept : ∀ d, Q d → Q (src.get d).2)
    : Retains Q (Reading.byte src : Reading σ κ UInt8) :=
  fun r start => kept r.source start

theorem Retains.bind {m : Reading σ κ β} {f : β → Reading σ κ α} (first : Retains Q m)
    (second : ∀ b, Retains Q (f b))
    : Retains Q (m >>= f) := by
  intro r start
  have mid := first r start
  rw [Reading.bind_apply]
  split
  case h_1 b r' ran => exact second b r' (by rwa [ran] at mid)
  case h_2 r' ran => rwa [ran] at mid

end Retains

section Reads

variable {σ κ α β : Type} (src : Source σ) (dry last : σ → Prop)

/-- From the state `k` a program reads the bytes, ends with the value `x` (or gives up) and leaves
the state `k'`, unless its source runs dry before.
-/
def Reads (k : κ) (m : Reading σ κ α) (bytes : List UInt8) (x : Option α) (k' : κ) : Prop :=
  ∀ d rest, Delivers src dry last d (bytes ++ rest) →
    (∃ d', m ⟨d, k⟩ = (x, ⟨d', k'⟩) ∧ Delivers src dry last d' rest)
      ∨ ∃ r, m ⟨d, k⟩ = (none, r) ∧ dry r.source

variable {src dry last} {k k' mid : κ} {x : Option α}

theorem Reads.pure (k : κ) (a : α) : Reads src dry last k (pure a) [] (some a) k :=
  fun d _ delivers => .inl ⟨d, rfl, delivers⟩

theorem Reads.giveUp (k : κ) : Reads src dry last k (Reading.giveUp : Reading σ κ α) [] none k :=
  fun d _ delivers => .inl ⟨d, rfl, delivers⟩

theorem Reads.bind {m : Reading σ κ β} {f : β → Reading σ κ α} {front back : List UInt8} {b : β}
    (first : Reads src dry last k m front (some b) mid)
    (second : Reads src dry last mid (f b) back x k')
    : Reads src dry last k (m >>= f) (front ++ back) x k' := by
  intro d rest delivers
  rw [List.append_assoc] at delivers
  obtain ⟨d', ran, delivers⟩ | ⟨r, ran, isDry⟩ := first d (back ++ rest) delivers
  · rw [Reading.bind_apply, ran]
    exact second d' rest delivers
  · right
    exact ⟨r, by rw [Reading.bind_apply, ran], isDry⟩

/-- A value that is computed behind the last byte. -/
theorem Reads.bind_pure {m : Reading σ κ β} {g : β → α} {bytes : List UInt8} {b : β}
    (first : Reads src dry last k m bytes (some b) k')
    : Reads src dry last k (m >>= fun b => Pure.pure (g b)) bytes (some (g b)) k' := by
  rw [← List.append_nil bytes]
  exact first.bind (.pure k' (g b))

/-- A program that gives up does not go on. -/
theorem Reads.bind_none {m : Reading σ κ β} {f : β → Reading σ κ α} {bytes : List UInt8}
    (first : Reads src dry last k m bytes none k')
    : Reads src dry last k (m >>= f) bytes none k' := by
  intro d rest delivers
  obtain ⟨d', ran, delivers⟩ | ⟨r, ran, isDry⟩ := first d rest delivers
  · left
    exact ⟨d', by rw [Reading.bind_apply, ran], delivers⟩
  · right
    exact ⟨r, by rw [Reading.bind_apply, ran], isDry⟩

theorem Reads.byte (k : κ) (b : UInt8)
    : Reads src dry last k (Reading.byte src) [b] (some b) k := by
  intro d rest delivers
  obtain ⟨d', got, delivers⟩ | ⟨d', got, isDry⟩ := Delivers.cons delivers
  · exact .inl ⟨d', by simp [got], delivers⟩
  · exact .inr ⟨⟨d', k⟩, by simp [got], isDry⟩

theorem Reads.state (k : κ)
    : Reads src dry last k Reading.state [] (some k) k :=
  fun d _ delivers => .inl ⟨d, rfl, delivers⟩

theorem Reads.modify (k : κ) (f : κ → κ)
    : Reads src dry last k (Reading.modify f) [] (some ()) (f k) :=
  fun d _ delivers => .inl ⟨d, rfl, delivers⟩

theorem Reads.check_true {c : Prop} [Decidable c] (k : κ) (h : c)
    : Reads src dry last k (Reading.check c) [] (some ()) k := by
  rw [Reading.check, if_pos h]
  exact .pure k ()

theorem Reads.check_false {c : Prop} [Decidable c] (k : κ) (h : ¬ c)
    : Reads src dry last k (Reading.check c) [] none k := by
  rw [Reading.check, if_neg h]
  exact .giveUp k

end Reads

end ByteSource
