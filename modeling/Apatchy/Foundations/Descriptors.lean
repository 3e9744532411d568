import Mathlib.Data.Fintype.EquivFin
import Mathlib.Data.List.AList

/-!
# File descriptors and pairs of sockets

A process knows what it has opened by small numbers, and a number that was closed is given out
again: closing twice may close what somebody else has opened since. What keeps a process from
it is that every open descriptor is in exactly one variable, and a variable holds nothing else
(`Apatchy.HeldIn`); opening into an empty variable, and closing and emptying one, keep that.
How a new number is chosen is a parameter (`Apatchy.Numbering`); in POSIX it is the lowest that
is free.

The second part is what POSIX, and Linux, say about the two ends of a `socketpair`
(`Apatchy.Kernel`): bytes come out in the order in which they went in; behind the last of them
stands the end, once the other end is shut down or closed; sending to an end that was closed
is a broken pipe; and where bytes had not been read when an end was closed, the other end
hears of it as a reset. Of what is sent, as much is taken as there is room for at that moment.
-/

namespace Apatchy

/-! ### The table -/

/-- **The open descriptors**, each with what it refers to. -/
abbrev Descriptors (α : Type*) := AList fun _ : ℕ => α

/-- How the number of a new descriptor is chosen. -/
structure Numbering (α : Type*) where
  /-- The number. -/
  next : Descriptors α → ℕ
  /-- It is free. -/
  next_notMem : ∀ t, next t ∉ t

/-- There is a free number. -/
theorem exists_free {α : Type*} (t : Descriptors α) : ∃ n, n ∉ t := by
  obtain ⟨n, hn⟩ := Infinite.exists_notMem_finset t.keys.toFinset
  exact ⟨n, fun hmem => hn (List.mem_toFinset.mpr hmem)⟩

/-- The lowest number that is free. -/
instance {α : Type*} : Inhabited (Numbering α) where
  default :=
    { next := fun t => Nat.find (exists_free t)
      next_notMem := fun t => Nat.find_spec (exists_free t) }

/-- **Every open descriptor is in one variable, and a variable holds nothing else**; `Suits`
says what each variable is for. -/
structure HeldIn {α ν : Type*} (t : Descriptors α) (var : ν → Option ℕ) (Suits : ν → α → Prop) :
    Prop where
  /-- What is held is open, and refers to what the variable is for. -/
  suits : ∀ v fd, var v = some fd → ∃ a, t.lookup fd = some a ∧ Suits v a
  /-- It is held once. -/
  once : ∀ v w fd, var v = some fd → var w = some fd → v = w
  /-- What is open is held. -/
  kept : ∀ fd ∈ t, ∃ v, var v = some fd

namespace HeldIn

variable {α ν : Type*} {t t' : Descriptors α} {var : ν → Option ℕ} {Suits Suits' : ν → α → Prop}
  {v w : ν} {fd : ℕ} {a : α}

theorem mem (h : HeldIn t var Suits) (hv : var v = some fd) : fd ∈ t := by
  obtain ⟨a, ha, -⟩ := h.suits v fd hv
  exact AList.lookup_isSome.mp (by simp [ha])

/-- Only what the descriptors refer to matters. -/
theorem congr (h : HeldIn t var Suits) (hlookup : ∀ n, t'.lookup n = t.lookup n) :
    HeldIn t' var Suits where
  suits v fd hv := by simpa only [hlookup] using h.suits v fd hv
  once := h.once
  kept fd hfd := by
    refine h.kept fd (AList.lookup_isSome.mp ?_)
    rw [← hlookup]
    exact AList.lookup_isSome.mpr hfd

theorem mono (h : HeldIn t var Suits) (hmono : ∀ v fd a, var v = some fd → Suits v a → Suits' v a) :
    HeldIn t var Suits' where
  suits v fd hv := by
    obtain ⟨a, ha, hsuits⟩ := h.suits v fd hv
    exact ⟨a, ha, hmono v fd a hv hsuits⟩
  once := h.once
  kept := h.kept

variable [DecidableEq ν]

/-- **A new descriptor is put in an empty variable.** -/
theorem insert (h : HeldIn t var Suits) (hfd : fd ∉ t) (hv : var v = none) (ha : Suits v a) :
    HeldIn (t.insert fd a) (Function.update var v (some fd)) Suits where
  suits w n hw := by
    by_cases hwv : w = v
    · subst hwv
      rw [Function.update_self] at hw
      obtain rfl := Option.some.inj hw
      exact ⟨a, AList.lookup_insert t, ha⟩
    · rw [Function.update_of_ne hwv] at hw
      have hn : n ≠ fd := by
        rintro rfl
        exact hfd (h.mem hw)
      rw [AList.lookup_insert_ne hn]
      exact h.suits w n hw
  once u w n hu hw := by
    -- an old variable does not hold the new number, which was free
    have hold : ∀ x, x ≠ v → Function.update var v (some fd) x = some n → n ≠ fd := by
      rintro x hx hxn rfl
      rw [Function.update_of_ne hx] at hxn
      exact hfd (h.mem hxn)
    have hnew : Function.update var v (some fd) v = some n → n = fd := by
      rw [Function.update_self]
      exact fun hn => (Option.some.inj hn).symm
    by_cases huv : u = v
    · by_cases hwv : w = v
      · rw [huv, hwv]
      · subst huv
        exact absurd (hnew hu) (hold w hwv hw)
    · by_cases hwv : w = v
      · subst hwv
        exact absurd (hnew hw) (hold u huv hu)
      · rw [Function.update_of_ne huv] at hu
        rw [Function.update_of_ne hwv] at hw
        exact h.once u w n hu hw
  kept n hn := by
    rcases (AList.mem_insert t).mp hn with rfl | hn
    · exact ⟨v, Function.update_self v _ var⟩
    · obtain ⟨u, hu⟩ := h.kept n hn
      have huv : u ≠ v := by
        rintro rfl
        simp [hv] at hu
      exact ⟨u, by rw [Function.update_of_ne huv, hu]⟩

/-- **A descriptor is closed, and its variable is emptied.** -/
theorem erase (h : HeldIn t var Suits) (hv : var v = some fd) :
    HeldIn (t.erase fd) (Function.update var v none) Suits where
  suits w n hw := by
    have hwv : w ≠ v := by
      rintro rfl
      simp at hw
    rw [Function.update_of_ne hwv] at hw
    -- another variable has another descriptor
    have hn : n ≠ fd := by
      rintro rfl
      exact hwv (h.once w v n hw hv)
    rw [AList.lookup_erase_ne hn]
    exact h.suits w n hw
  once u w n hu hw := by
    have hne : ∀ x, Function.update var v none x = some n → x ≠ v := by
      rintro x hx rfl
      simp at hx
    have huv := hne u hu
    have hwv := hne w hw
    rw [Function.update_of_ne huv] at hu
    rw [Function.update_of_ne hwv] at hw
    exact h.once u w n hu hw
  kept n hn := by
    obtain ⟨hne, hmem⟩ := AList.mem_erase.mp hn
    obtain ⟨u, hu⟩ := h.kept n hmem
    have huv : u ≠ v := by
      rintro rfl
      exact hne (Option.some.inj (hu.symm.trans hv))
    exact ⟨u, by rw [Function.update_of_ne huv, hu]⟩

end HeldIn

/-! ### Pairs of sockets -/

/-- What a descriptor refers to. -/
inductive FileObject where
  /-- A file, or a socket that is connected elsewhere. -/
  | other : FileObject
  /-- An end of a pair of sockets; `second` says which. -/
  | endpoint (pair : ℕ) (second : Bool) : FileObject
  deriving DecidableEq

/-- One end of a pair of sockets. -/
structure SocketEnd where
  /-- The bytes that came and were not read. -/
  unread : List UInt8 := []
  /-- Nothing more will come. -/
  ended : Bool := false
  /-- The other end was closed. -/
  peerClosed : Bool := false
  /-- It was closed with bytes that it had not read, and this was not told yet. -/
  reset : Bool := false
  deriving DecidableEq

/-- The open descriptors of a process, and the pairs of sockets. -/
structure Kernel where
  /-- The descriptors. -/
  table : Descriptors FileObject := ∅
  /-- How many pairs were made. -/
  pairs : ℕ := 0
  /-- Their ends. -/
  ends : ℕ → Bool → SocketEnd := fun _ _ => {}

/-- What `recv` says. -/
inductive Received where
  /-- There were bytes. -/
  | bytes (data : List UInt8) : Received
  /-- The end. -/
  | eof : Received
  /-- `ECONNRESET`. -/
  | reset : Received
  /-- Nothing yet. -/
  | wouldBlock : Received
  deriving DecidableEq

/-- What `send` says. -/
inductive Sent where
  /-- So many bytes were taken: none, where there was no room. -/
  | taken (n : ℕ) : Sent
  /-- `EPIPE`. -/
  | brokenPipe : Sent
  /-- `EBADF`. -/
  | notOpen : Sent
  deriving DecidableEq

/-- The bytes that were received. -/
def Received.data : Received → List UInt8
  | .bytes data => data
  | _ => []

namespace Kernel

variable {k : Kernel} {fd p q : ℕ} {s : Bool} {numbering : Numbering FileObject}

/-- An end is changed. -/
def modify (k : Kernel) (p : ℕ) (s : Bool) (f : SocketEnd → SocketEnd) : Kernel :=
  { k with ends := Function.update k.ends p (Function.update (k.ends p) s (f (k.ends p s))) }

/-- A file is opened, or a socket that is connected elsewhere. -/
def openNew (numbering : Numbering FileObject) (k : Kernel) : ℕ × Kernel :=
  (numbering.next k.table, { k with table := k.table.insert (numbering.next k.table) .other })

/-- `close`; whether there was something to close. -/
def close (k : Kernel) (fd : ℕ) : Bool × Kernel :=
  match k.table.lookup fd with
  | none => (false, k)
  | some .other => (true, { k with table := k.table.erase fd })
  | some (.endpoint p s) =>
    (true, ({ k with table := k.table.erase fd } : Kernel).modify p (!s) fun e =>
      { e with
        ended := true
        peerClosed := true
        reset := e.reset || !(k.ends p s).unread.isEmpty })

/-- `socketpair`: the two descriptors. -/
def socketpair (numbering : Numbering FileObject) (k : Kernel) : (ℕ × ℕ) × Kernel :=
  let first := numbering.next k.table
  let table := k.table.insert first (.endpoint k.pairs false)
  let second := numbering.next table
  ((first, second),
    { table := table.insert second (.endpoint k.pairs true)
      pairs := k.pairs + 1
      ends := Function.update k.ends k.pairs fun _ => {} })

/-- `write`, or `send`, where there is room for so many bytes. What goes elsewhere is not
followed. -/
def send (k : Kernel) (fd : ℕ) (data : List UInt8) (room : ℕ) : Sent × Kernel :=
  match k.table.lookup fd with
  | none => (.notOpen, k)
  | some .other => (.taken (data.take room).length, k)
  | some (.endpoint p s) =>
    if (k.ends p s).peerClosed then (.brokenPipe, k)
    else
      (.taken (data.take room).length,
        k.modify p (!s) fun e => { e with unread := e.unread ++ data.take room })

/-- `shutdown(fd, SHUT_WR)`. -/
def shutdown (k : Kernel) (fd : ℕ) : Kernel :=
  match k.table.lookup fd with
  | some (.endpoint p s) => k.modify p (!s) fun e => { e with ended := true }
  | _ => k

/-- `recv` of at most `n` bytes, at an end of a pair. -/
def recv (k : Kernel) (p : ℕ) (s : Bool) (n : ℕ) : Received × Kernel :=
  if (k.ends p s).unread ≠ [] then
    (.bytes ((k.ends p s).unread.take n),
      k.modify p s fun e => { e with unread := e.unread.drop n })
  else if (k.ends p s).reset then (.reset, k.modify p s fun e => { e with reset := false })
  else if (k.ends p s).ended then (.eof, k)
  else (.wouldBlock, k)

@[simp] theorem modify_table (f : SocketEnd → SocketEnd) : (k.modify p s f).table = k.table := rfl

@[simp] theorem modify_pairs (f : SocketEnd → SocketEnd) : (k.modify p s f).pairs = k.pairs := rfl

@[simp] theorem modify_ends_self (f : SocketEnd → SocketEnd) :
    (k.modify p s f).ends p s = f (k.ends p s) := by
  simp [modify]

theorem modify_ends_of_ne (f : SocketEnd → SocketEnd) (h : q ≠ p) (r : Bool) :
    (k.modify p s f).ends q r = k.ends q r := by
  simp [modify, Function.update_of_ne h]

@[simp] theorem modify_ends_not (f : SocketEnd → SocketEnd) :
    (k.modify p (!s) f).ends p s = k.ends p s := by
  simp [modify]

/-- **Closing what is open takes its descriptor, and nothing else from the table.** -/
theorem close_of_mem (h : fd ∈ k.table) :
    (k.close fd).1 = true ∧ (k.close fd).2.table = k.table.erase fd ∧
      (k.close fd).2.pairs = k.pairs := by
  obtain ⟨o, ho⟩ := Option.isSome_iff_exists.mp (AList.lookup_isSome.mpr h)
  rcases o with _ | ⟨p, s⟩
  · simp [close, ho]
  · simp [close, ho]

/-- Closing something else than an end changes no end. -/
theorem close_ends_other (h : k.table.lookup fd = some .other) :
    (k.close fd).2.ends = k.ends := by
  simp [close, h]

/-- Closing an end changes the other one of its pair only. -/
theorem close_ends_self (h : k.table.lookup fd = some (.endpoint p s)) (q : ℕ) :
    (k.close fd).2.ends q s = k.ends q s := by
  by_cases hq : q = p
  · subst hq
    simp [close, h]
  · simp [close, h, modify_ends_of_ne _ hq]

/-- The other end of its pair is told that nothing more will come. -/
theorem close_ends_not (h : k.table.lookup fd = some (.endpoint p s)) :
    ((k.close fd).2.ends p (!s)).unread = (k.ends p (!s)).unread ∧
      ((k.close fd).2.ends p (!s)).ended = true ∧
        ((k.close fd).2.ends p (!s)).peerClosed = true := by
  simp [close, h]

/-- The ends of the other pairs do not change. -/
theorem close_ends_of_ne (h : k.table.lookup fd = some (.endpoint p s)) (hq : q ≠ p) (r : Bool) :
    (k.close fd).2.ends q r = k.ends q r := by
  simp [close, h, modify_ends_of_ne _ hq]

/-- A new pair changes no end of another one. -/
theorem socketpair_ends_of_ne (h : q ≠ k.pairs) :
    (k.socketpair numbering).2.ends q = k.ends q := by
  simp [socketpair, Function.update_of_ne h]

/-- The new pair is empty. -/
@[simp] theorem socketpair_ends_self : (k.socketpair numbering).2.ends k.pairs = fun _ => {} := by
  simp [socketpair]

@[simp] theorem socketpair_pairs : (k.socketpair numbering).2.pairs = k.pairs + 1 := rfl

/-- The two descriptors are new, and they are two. -/
theorem socketpair_notMem (k : Kernel) (numbering : Numbering FileObject) :
    (k.socketpair numbering).1.1 ∉ k.table ∧ (k.socketpair numbering).1.2 ∉ k.table ∧
      (k.socketpair numbering).1.2 ≠ (k.socketpair numbering).1.1 := by
  have hsecond := numbering.next_notMem
    (k.table.insert (numbering.next k.table) (.endpoint k.pairs false))
  rw [AList.mem_insert, not_or] at hsecond
  exact ⟨numbering.next_notMem k.table, hsecond.2, hsecond.1⟩

/-- What the descriptors refer to afterwards. -/
theorem socketpair_lookup (n : ℕ) :
    (k.socketpair numbering).2.table.lookup n =
      if n = (k.socketpair numbering).1.2 then some (.endpoint k.pairs true)
      else if n = (k.socketpair numbering).1.1 then some (.endpoint k.pairs false)
      else k.table.lookup n := by
  by_cases hsecond : n = (k.socketpair numbering).1.2
  · rw [if_pos hsecond, hsecond]
    exact AList.lookup_insert _
  · rw [if_neg hsecond]
    refine (AList.lookup_insert_ne hsecond).trans ?_
    by_cases hfirst : n = (k.socketpair numbering).1.1
    · rw [if_pos hfirst, hfirst]
      exact AList.lookup_insert _
    · rw [if_neg hfirst]
      exact AList.lookup_insert_ne hfirst

/-- Writing and shutting down, at the second end of a pair that nobody used. -/
theorem send_shutdown (h : k.table.lookup fd = some (.endpoint p true))
    (hends : k.ends p = fun _ => {}) (data : List UInt8) (room : ℕ) :
    ((k.send fd data room).2.shutdown fd).table = k.table ∧
      ((k.send fd data room).2.shutdown fd).pairs = k.pairs ∧
        ((k.send fd data room).2.shutdown fd).ends p false =
          { unread := data.take room, ended := true } ∧
            ∀ q ≠ p, ((k.send fd data room).2.shutdown fd).ends q = k.ends q := by
  have hsend : (k.send fd data room).2 = k.modify p false
      fun e => { e with unread := e.unread ++ data.take room } := by
    simp [send, h, hends]
  rw [hsend]
  have hshut : (k.modify p false
      fun e => { e with unread := e.unread ++ data.take room }).shutdown fd =
        (k.modify p false fun e => { e with unread := e.unread ++ data.take room }).modify p false
          fun e => { e with ended := true } := by
    simp [shutdown, h]
  rw [hshut]
  refine ⟨rfl, rfl, by simp [hends], fun q hq => ?_⟩
  funext s
  rw [modify_ends_of_ne _ hq, modify_ends_of_ne _ hq]

/-- **What `recv` does**: it takes bytes from the front of those that are there, or tells of a
reset, or finds nothing. -/
theorem recv_cases (k : Kernel) (p : ℕ) (s : Bool) (n : ℕ) :
    (k.recv p s n = (.bytes ((k.ends p s).unread.take n),
        k.modify p s fun e => { e with unread := e.unread.drop n })) ∨
      ((k.ends p s).unread = [] ∧ (k.ends p s).reset = true ∧
        k.recv p s n = (.reset, k.modify p s fun e => { e with reset := false })) ∨
      ((k.ends p s).unread = [] ∧ ∃ r, (r = .eof ∨ r = .wouldBlock) ∧ k.recv p s n = (r, k)) := by
  by_cases hunread : (k.ends p s).unread = []
  · by_cases hreset : (k.ends p s).reset = true
    · exact Or.inr (Or.inl ⟨hunread, hreset, by simp [recv, hunread, hreset]⟩)
    · refine Or.inr (Or.inr ⟨hunread, ?_⟩)
      by_cases hended : (k.ends p s).ended = true
      · exact ⟨.eof, Or.inl rfl, by simp [recv, hunread, hreset, hended]⟩
      · exact ⟨.wouldBlock, Or.inr rfl, by simp [recv, hunread, hreset, hended]⟩
  · exact Or.inl (by simp [recv, hunread])

end Kernel

end Apatchy
