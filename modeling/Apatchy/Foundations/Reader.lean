import Mathlib.Algebra.Order.Ring.Nat
import Mathlib.Data.List.Basic
import Mathlib.Tactic.Ring

/-!
# Reading bytes

A wire format is described here by its *reader*: what takes bytes apart
(`Apatchy.Reader`). That an encoder agrees with a reader is
`Apatchy.Reader.Reads p bs a`: on bytes that begin with `bs`, the reader consumes
exactly `bs` and yields `a`, whatever follows. The relation composes along `>>=`
(`Apatchy.Reader.Reads.bind`), so the correctness of an encoder is assembled from
that of its fields.

The bytes of a whole message have an end, and two readers need it: the one that
takes everything that is left (`Apatchy.Reader.remaining`) and the one that reads
items until nothing is left (`Apatchy.Reader.items`). Their results are about
`Apatchy.Reader.ReadsAll`, which composes on the right of `Apatchy.Reader.Reads`.

Words are big-endian and read as natural numbers: `Apatchy.ofBigEndian_bigEndian`
is the one fact about their arithmetic.
-/

namespace Apatchy

/-! ### Big-endian words -/

/-- The low `n` bytes of a number, most significant first. -/
def bigEndian : ℕ → ℕ → List UInt8
  | 0, _ => []
  | n + 1, v => UInt8.ofNat (v / 256 ^ n) :: bigEndian n v

/-- The number a sequence of bytes spells, most significant first. -/
def ofBigEndian : List UInt8 → ℕ
  | [] => 0
  | b :: bs => 256 ^ bs.length * b.toNat + ofBigEndian bs

@[simp] theorem length_bigEndian (n v : ℕ) : (bigEndian n v).length = n := by
  induction n with
  | zero => rfl
  | succ n ih => simp [bigEndian, ih]

/-- **A word reads back as the number, reduced to its width.** -/
theorem ofBigEndian_bigEndian (n v : ℕ) : ofBigEndian (bigEndian n v) = v % 256 ^ n := by
  induction n with
  | zero => simp [bigEndian, ofBigEndian, Nat.mod_one]
  | succ n ih =>
    have hbyte : (UInt8.ofNat (v / 256 ^ n)).toNat = v / 256 ^ n % 256 := by simp
    rw [bigEndian, ofBigEndian, length_bigEndian, ih, hbyte, Nat.mod_pow_succ]
    exact Nat.add_comm _ _

theorem ofBigEndian_bigEndian_of_lt {n v : ℕ} (h : v < 256 ^ n) :
    ofBigEndian (bigEndian n v) = v := by
  rw [ofBigEndian_bigEndian, Nat.mod_eq_of_lt h]

/-! ### Readers -/

/-- **A reader**: the value it finds at the front of some bytes and the bytes
after it, or nothing. -/
abbrev Reader (α : Type) := StateT (List UInt8) Option α

namespace Reader

variable {α β γ : Type}

/-- The next `n` bytes. -/
def bytes (n : ℕ) : Reader (List UInt8) := fun bs =>
  if n ≤ bs.length then some (bs.take n, bs.drop n) else none

/-- The next `n` bytes, as a big-endian word. -/
def word (n : ℕ) : Reader ℕ := do
  return ofBigEndian (← bytes n)

/-- Everything that is left. -/
def remaining : Reader (List UInt8) := fun bs => some (bs, [])

/-- The next `n` bytes, without reading them. -/
def peek (n : ℕ) : Reader (List UInt8) := fun bs =>
  if n ≤ bs.length then some (bs.take n, bs) else none

/-- A value that some earlier field decided, if it decided one. -/
def ofOption (o : Option α) : Reader α := fun bs => o.map fun a => (a, bs)

/-- A reader repeated a given number of times. -/
def times (p : Reader α) : ℕ → Reader (List α)
  | 0 => pure []
  | n + 1 => do
    let a ← p
    let as ← times p n
    return a :: as

/-- The value of a reader that must account for all the bytes. -/
def whole (p : Reader α) (bs : List UInt8) : Option α :=
  match p.run bs with
  | some (a, []) => some a
  | _ => none

/-- Items read until the bytes run out, with a bound on their number. -/
def itemsUpTo (p : Reader α) : ℕ → List UInt8 → Option (List α)
  | _, [] => some []
  | 0, _ :: _ => none
  | n + 1, b :: bs => do
    let (a, rest) ← p.run (b :: bs)
    let as ← itemsUpTo p n rest
    return a :: as

/-- **Items read until the bytes run out.** An item takes a byte at least, so
their number bounds the items. -/
def items (p : Reader α) (bs : List UInt8) : Option (List α) := itemsUpTo p bs.length bs

/-! ### What a reader reads -/

/-- **The reader reads exactly these bytes**, whatever follows them. -/
def Reads (p : Reader α) (bs : List UInt8) (a : α) : Prop :=
  ∀ rest, p.run (bs ++ rest) = some (a, rest)

/-- The reader reads these bytes to their end. -/
def ReadsAll (p : Reader α) (bs : List UInt8) (a : α) : Prop := p.run bs = some (a, [])

theorem Reads.pure (a : α) : Reads (Pure.pure a) [] a := fun _ => rfl

theorem Reads.bind {p : Reader α} {f : α → Reader β} {bs bs' : List UInt8} {a : α} {b : β}
    (h : Reads p bs a) (h' : Reads (f a) bs' b) : Reads (p >>= f) (bs ++ bs') b := by
  intro rest
  simp only [StateT.run_bind, List.append_assoc]
  rw [h (bs' ++ rest)]
  exact h' rest

/-- The last step of a reader may compute. -/
theorem Reads.map {p : Reader α} {f : α → β} {bs : List UInt8} {a : α} (h : Reads p bs a) :
    Reads (p >>= fun a => Pure.pure (f a)) bs (f a) := by
  intro rest
  rw [StateT.run_bind, h rest]
  rfl

theorem Reads.readsAll {p : Reader α} {bs : List UInt8} {a : α} (h : Reads p bs a) :
    ReadsAll p bs a := by
  have hnil := h []
  rwa [List.append_nil] at hnil

theorem Reads.bindAll {p : Reader α} {f : α → Reader β} {bs bs' : List UInt8} {a : α} {b : β}
    (h : Reads p bs a) (h' : ReadsAll (f a) bs' b) : ReadsAll (p >>= f) (bs ++ bs') b := by
  rw [ReadsAll, StateT.run_bind, h bs']
  exact h'

theorem ReadsAll.map {p : Reader α} {f : α → β} {bs : List UInt8} {a : α}
    (h : ReadsAll p bs a) : ReadsAll (p >>= fun a => Pure.pure (f a)) bs (f a) := by
  rw [ReadsAll, StateT.run_bind, h]
  rfl

theorem reads_bytes (bs : List UInt8) {n : ℕ} (h : bs.length = n) : Reads (bytes n) bs bs := by
  intro rest
  subst h
  simp [bytes, StateT.run]

theorem reads_word {n v : ℕ} (h : v < 256 ^ n) : Reads (word n) (bigEndian n v) v := by
  have hread := Reads.map (f := ofBigEndian)
    (reads_bytes (bigEndian n v) (length_bigEndian n v))
  rwa [ofBigEndian_bigEndian_of_lt h] at hread

/-- A single byte is a word of its own. -/
theorem reads_byte (b : UInt8) : Reads (word 1) [b] b.toNat := by
  have hread := Reads.map (f := ofBigEndian) (reads_bytes [b] rfl)
  have hvalue : ofBigEndian [b] = b.toNat := by simp [ofBigEndian]
  rwa [hvalue] at hread

theorem reads_ofOption (a : α) : Reads (ofOption (some a)) [] a := fun _ => rfl

theorem readsAll_remaining (bs : List UInt8) : ReadsAll remaining bs bs := rfl

/-- Looking ahead at bytes that are there. -/
theorem Reads.peek {f : List UInt8 → Reader β} {front bs : List UInt8} {b : β} {n : ℕ}
    (hfront : front.length = n) (h : Reads (f front) (front ++ bs) b) :
    Reads (Reader.peek n >>= f) (front ++ bs) b := by
  intro rest
  subst hfront
  have hpeek : (Reader.peek front.length).run (front ++ bs ++ rest) =
      some (front, front ++ bs ++ rest) := by simp [Reader.peek, StateT.run]
  rw [StateT.run_bind, hpeek]
  exact h rest

/-- A reader repeated along a list reads what its items are encoded to. -/
theorem reads_times {p : Reader α} (encode : β → List UInt8) (value : β → α) {xs : List β}
    (h : ∀ x ∈ xs, Reads p (encode x) (value x)) :
    Reads (times p xs.length) (xs.flatMap encode) (xs.map value) := by
  induction xs with
  | nil => exact Reads.pure []
  | cons x xs ih =>
    have hx := h x (List.mem_cons_self ..)
    have hxs := ih fun y hy => h y (List.mem_cons_of_mem _ hy)
    exact hx.bind (hxs.map (f := fun as => value x :: as))

theorem whole_of_readsAll {p : Reader α} {bs : List UInt8} {a : α} (h : ReadsAll p bs a) :
    whole p bs = some a := by
  rw [whole, h]

theorem whole_of_reads {p : Reader α} {bs : List UInt8} {a : α} (h : Reads p bs a) :
    whole p bs = some a :=
  whole_of_readsAll h.readsAll

/-- **Items that are read take their bytes**: if each takes as many as its size says, all of
them take as many as there are. -/
theorem sum_size_le_of_items {p : Reader α} {size : α → ℕ}
    (h : ∀ bs a rest, p.run bs = some (a, rest) → size a + rest.length ≤ bs.length)
    {bs : List UInt8} {as : List α} (hitems : items p bs = some as) :
    (as.map size).sum ≤ bs.length := by
  have hbound : ∀ n bs as, itemsUpTo p n bs = some as → (as.map size).sum ≤ bs.length := by
    intro n
    induction n with
    | zero =>
      rintro (_ | ⟨b, bs⟩) as hread
      · obtain rfl : [] = as := Option.some.inj hread
        simp
      · exact absurd hread (by simp [itemsUpTo])
    | succ n ih =>
      rintro (_ | ⟨b, bs⟩) as hread
      · obtain rfl : [] = as := Option.some.inj hread
        simp
      · rw [itemsUpTo] at hread
        obtain ⟨⟨a, rest⟩, hrun, hread⟩ := Option.bind_eq_some_iff.mp hread
        obtain ⟨tail, htail, hread⟩ := Option.bind_eq_some_iff.mp hread
        obtain rfl : a :: tail = as := Option.some.inj hread
        have hfirst := h _ _ _ hrun
        have hrest := ih rest tail htail
        simp only [List.map_cons, List.sum_cons]
        omega
  exact hbound _ _ _ hitems

/-- **Items back to back are read back in order.** An item that is encoded to
nothing has no value; every other one is read from its own bytes. -/
theorem items_flatMap {p : Reader α} (encode : β → List UInt8) (value : β → Option α)
    {xs : List β}
    (h : ∀ x ∈ xs, (encode x = [] ∧ value x = none) ∨
      (encode x ≠ [] ∧ ∃ a, value x = some a ∧ Reads p (encode x) a)) :
    items p (xs.flatMap encode) = some (xs.filterMap value) := by
  have hbound : ∀ (xs : List β), (∀ x ∈ xs, (encode x = [] ∧ value x = none) ∨
      (encode x ≠ [] ∧ ∃ a, value x = some a ∧ Reads p (encode x) a)) →
      ∀ n, (xs.flatMap encode).length ≤ n →
        itemsUpTo p n (xs.flatMap encode) = some (xs.filterMap value) := by
    intro xs
    induction xs with
    | nil => intro _ n _; cases n <;> rfl
    | cons x xs ih =>
      intro h n hn
      have hxs := ih fun y hy => h y (List.mem_cons_of_mem _ hy)
      rcases h x (List.mem_cons_self ..) with ⟨henc, hval⟩ | ⟨henc, a, hval, hread⟩
      · simpa [henc, hval] using hxs n (by simpa [henc] using hn)
      · obtain ⟨b, bs, hcons⟩ : ∃ b bs, encode x = b :: bs := List.exists_cons_of_ne_nil henc
        simp only [List.flatMap_cons, List.length_append, hcons, List.length_cons] at hn
        obtain ⟨m, rfl⟩ : ∃ m, n = m + 1 := ⟨n - 1, by omega⟩
        have hrun := hread (xs.flatMap encode)
        rw [hcons, List.cons_append] at hrun
        rw [List.flatMap_cons, hcons, List.cons_append, itemsUpTo, hrun]
        simp [hxs m (by omega), hval]
  exact hbound xs h _ le_rfl

end Reader

end Apatchy
