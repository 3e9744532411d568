import Apatchy.Foundations.Script

/-!
# Scripts that agree

What a script finds when it starts may be left over from earlier runs. It makes no difference
if two runs that start from related states give the same answer and leave related states
(`Apatchy.Script.Agree`): the relation says what the two states have in common, and a script
that writes something before it reads it brings the states closer.

There is one rule for each way to build a script; the rule for a loop takes a relation that
depends on what was returned so far (`Apatchy.Script.agree_each`). A relation can also say
something of one state alone, so the rules are those of an invariant as well.
-/

namespace Apatchy

namespace Script

variable {σ α β : Type}

/-- **Two scripts agree** from related states: they return the same, or stop with the same
message, and leave related states. -/
def Agree (P : σ → σ → Prop) (s t : Script σ α) (E : σ → σ → Prop) (Q : α → σ → σ → Prop) :
    Prop :=
  ∀ st st', P st st' →
    (∃ a u u', s.run st = (.ok a, u) ∧ t.run st' = (.ok a, u') ∧ Q a u u') ∨
      ∃ e u u', s.run st = (.error e, u) ∧ t.run st' = (.error e, u') ∧ E u u'

variable {P P' E E' : σ → σ → Prop} {Q Q' : α → σ → σ → Prop} {R : β → σ → σ → Prop}

theorem agree_pure {a : α} (h : ∀ st st', P st st' → Q a st st') :
    Agree P (pure a) (pure a) E Q :=
  fun st st' hst => Or.inl ⟨a, st, st', rfl, rfl, h st st' hst⟩

theorem agree_fail {message : String} (h : ∀ st st', P st st' → E st st') :
    Agree P (fail message : Script σ α) (fail message) E Q :=
  fun st st' hst => Or.inr ⟨message, st, st', rfl, rfl, h st st' hst⟩

theorem agree_modify {f g : σ → σ} {Q : Unit → σ → σ → Prop}
    (h : ∀ st st', P st st' → Q () (f st) (g st')) : Agree P (modify f) (modify g) E Q :=
  fun st st' hst => Or.inl ⟨(), f st, g st', rfl, rfl, h st st' hst⟩

/-- The rule for a sequence. -/
theorem Agree.bind {s t : Script σ α} {f g : α → Script σ β} (h : Agree P s t E Q)
    (hfg : ∀ a, Agree (Q a) (f a) (g a) E R) : Agree P (s >>= f) (t >>= g) E R := by
  intro st st' hst
  rcases h st st' hst with ⟨a, u, u', hs, ht, hQ⟩ | ⟨e, u, u', hs, ht, hE⟩
  · rw [run_bind_of_ok hs, run_bind_of_ok ht]
    exact hfg a u u' hQ
  · exact Or.inr ⟨e, u, u', run_bind_of_error hs f, run_bind_of_error ht g, hE⟩

/-- The rule for scripts that depend on the state. -/
theorem agree_get_bind {f g : σ → Script σ β}
    (h : ∀ st st', P st st' → Agree (fun u u' => u = st ∧ u' = st') (f st) (g st') E R) :
    Agree P (get >>= f) (get >>= g) E R := by
  intro st st' hst
  rw [run_bind_of_ok (run_get st), run_bind_of_ok (run_get st')]
  exact h st st' hst st st' ⟨rfl, rfl⟩

/-- The rule of consequence. -/
theorem Agree.conseq {s t : Script σ α} (h : Agree P s t E Q)
    (hpre : ∀ st st', P' st st' → P st st') (hstop : ∀ st st', E st st' → E' st st')
    (hpost : ∀ a st st', Q a st st' → Q' a st st') : Agree P' s t E' Q' := by
  intro st st' hst
  rcases h st st' (hpre st st' hst) with ⟨a, u, u', hs, ht, hQ⟩ | ⟨e, u, u', hs, ht, hE⟩
  · exact Or.inl ⟨a, u, u', hs, ht, hpost a u u' hQ⟩
  · exact Or.inr ⟨e, u, u', hs, ht, hstop u u' hE⟩

theorem Agree.weaken {s t : Script σ α} (h : Agree P s t E Q)
    (hpre : ∀ st st', P' st st' → P st st') (hpost : ∀ a st st', Q a st st' → Q' a st st') :
    Agree P' s t E Q' :=
  h.conseq hpre (fun _ _ hE => hE) hpost

/-- **The rule for a loop**, with a relation that depends on what was returned so far. -/
theorem agree_each {f g : α → Script σ β} (I : List β → σ → σ → Prop) {as : List α}
    (hfg : ∀ bs, ∀ a ∈ as, Agree (I bs) (f a) (g a) E fun b => I (bs ++ [b])) :
    Agree (I []) (each f as) (each g as) E I := by
  have hrest : ∀ bs, Agree (I bs) (each f as) (each g as) E fun bs' => I (bs ++ bs') := by
    induction as with
    | nil => exact fun bs => agree_pure fun st st' hst => by simpa using hst
    | cons a as ih =>
      intro bs
      have hrest := ih fun bs a' ha' => hfg bs a' (List.mem_cons_of_mem a ha')
      refine (hfg bs a List.mem_cons_self).bind fun b => (hrest (bs ++ [b])).bind fun bs' =>
        agree_pure fun st st' hst => ?_
      rwa [List.append_assoc, List.singleton_append] at hst
  exact hrest []

/-- What one run returns and leaves, the other does. -/
theorem Agree.run_eq {s t : Script σ α} (h : Agree P s t E Q) {st st' : σ} (hst : P st st') :
    (s.run st).1 = (t.run st').1 := by
  rcases h st st' hst with ⟨a, u, u', hs, ht, -⟩ | ⟨e, u, u', hs, ht, -⟩
  · rw [hs, ht]
  · rw [hs, ht]

/-- What both leave where they return. -/
theorem Agree.post {s t : Script σ α} (h : Agree P s t E Q) {st st' : σ} (hst : P st st')
    {a : α} (hok : (s.run st).1 = .ok a) : Q a (s.run st).2 (t.run st').2 := by
  rcases h st st' hst with ⟨a', u, u', hs, ht, hQ⟩ | ⟨e, u, u', hs, ht, -⟩
  · rw [hs] at hok
    obtain rfl : a' = a := Except.ok.inj hok
    rw [hs, ht]
    exact hQ
  · rw [hs] at hok
    exact absurd hok (by simp)

/-- What either leaves in any case. -/
theorem Agree.leaves {s t : Script σ α} (h : Agree P s t E fun _ => E) {st st' : σ}
    (hst : P st st') : E (s.run st).2 (t.run st').2 := by
  rcases h st st' hst with ⟨a, u, u', hs, ht, hE⟩ | ⟨e, u, u', hs, ht, hE⟩
  · rw [hs, ht]
    exact hE
  · rw [hs, ht]
    exact hE

end Script

end Apatchy
