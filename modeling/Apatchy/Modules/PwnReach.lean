import Apatchy.Converters.Pwn
import Apatchy.Modules.Pwn

/-!
# Which planted bugs are found

The strategies of `ApplyPwn` are there to set off the bugs of `mod_pwn`. Whether they do is a
matter of both: of the header that is written, of how it is read back, and of what the function
that gets it makes of its value.

`Apatchy.strategies_reach`: over every run of requests that bring no such header of their own,
something goes wrong exactly if one of them sends a format, or 64 letters or more, or asks for
an index behind the table or for the endpoint that crashes. The numbers of the table never wrap
to a size that is too small, and of the four strategies that are no case of the `switch` none
sends a value that its function knows. So the heap overflow, the use after free, the null
pointer, the integer overflow and the double free are not found by their strategies, in
whatever order the requests come.
-/

namespace Apatchy

/-- A header that has a name, in whatever case. -/
def Header.Called (key : String) (h : Header) : Prop :=
  h.name.map smallLetter = (ascii key).map smallLetter

instance (key : String) (h : Header) : Decidable (h.Called key) :=
  inferInstanceAs (Decidable (_ = _))

/-- **A request that brings no planted header of its own**, and is read without ambiguity. -/
structure PwnRequest.Plain (pwn : PwnRequest) : Prop where
  /-- It is read without ambiguity. -/
  clean : pwn.http.Clean
  /-- No header of its own is called like a planted one. -/
  headers : ∀ h ∈ pwn.http.headers, ∀ key ∈ pwnHeaderNames, ¬ h.Called key

/-- **What httpd hands to the module** for a message: a table of the headers that are read from
what was sent. -/
structure Carries (r : RequestRec) (pwn : PwnRequest) : Prop where
  /-- A name that one header has is found, with its value. -/
  found : ∀ p ∈ parseRequest (applyPwn pwn (buildHttpRequest pwn.http)), ∀ key ∈ pwnHeaderNames,
    ∀ h, p.headers.filter (fun h => h.Called key) = [h] → r.headersIn key = some (cStr h.value)
  /-- A name that no header has is not. -/
  absent : ∀ p ∈ parseRequest (applyPwn pwn (buildHttpRequest pwn.http)), ∀ key ∈ pwnHeaderNames,
    (∀ h ∈ p.headers, ¬ h.Called key) → r.headersIn key = none
  /-- The module serves the request. -/
  served : r.servedBy.isSome

/-- **A message that sets something off**: a format, or too many letters. -/
def PwnRequest.SetsOff (pwn : PwnRequest) : Prop :=
  pwn.strategy = .pwnFormat ∨
    pwn.strategy = .pwnOverflow ∧ 2 ≤ (pwn.overflowSizeIdx.getD 0).toNat % 9

/-- **A URI that sets something off**: one for an index behind the table, or for the endpoint
that crashes. -/
def RequestRec.UriSetsOff (r : RequestRec) : Prop :=
  ∃ u ∈ r.uri, (∃ rest, u = ascii "/pwn/oob/" ++ rest ∧ 5 ≤ atoi rest ∧ atoi rest < 10) ∨
    u = ascii "/pwn/crash"

/-! ### The header that arrives -/

/-- The names of the planted headers are told apart. -/
theorem called_pwnHeaderNames : ∀ a ∈ pwnHeaderNames, ∀ b ∈ pwnHeaderNames,
    (ascii a).map smallLetter = (ascii b).map smallLetter ↔ a = b := by
  decide

theorem cStr_of_not_mem {v : List UInt8} (h : 0 ∉ v) : cStr v = v := by
  refine List.takeWhile_eq_self_iff.mpr fun c hc => ?_
  have hne : c ≠ 0 := fun h0 => h (h0 ▸ hc)
  simpa using hne

/-- The defaults are not called like a planted header. -/
theorem not_called_sentHeaders {pwn : PwnRequest} (hplain : pwn.Plain) {key : String}
    (hkey : key ∈ pwnHeaderNames) : ∀ h ∈ pwn.http.sentHeaders, ¬ h.Called key := by
  have hnames : ∀ key ∈ pwnHeaderNames,
      (ascii "Host").map smallLetter ≠ (ascii key).map smallLetter ∧
      (ascii "Content-Length").map smallLetter ≠ (ascii key).map smallLetter := by
    decide
  intro h hh
  rcases List.mem_append.mp hh with hh | hh
  · rcases List.mem_append.mp hh with hh | hh
    · exact hplain.headers h (List.mem_filter.mp hh).1 key hkey
    · rw [HttpRequest.hostDefault] at hh
      split_ifs at hh
      · simp at hh
      · rw [List.mem_singleton.mp hh]
        exact (hnames key hkey).1
  · rw [HttpRequest.lengthDefault] at hh
    split_ifs at hh
    · rw [List.mem_singleton.mp hh]
      exact (hnames key hkey).2
    · simp at hh

/-! ### The values, one strategy after the other -/

theorem length_headerValue {pwn : PwnRequest} (h : pwn.strategy = .pwnOverflow) :
    pwn.headerValue.length < 64 ↔ ¬ 2 ≤ (pwn.overflowSizeIdx.getD 0).toNat % 9 := by
  have hidx : (pwn.overflowSizeIdx.getD 0).toNat % 9 < 9 := Nat.mod_lt _ (by decide)
  rw [PwnRequest.headerValue, h]
  simp only [List.length_replicate, PwnRequest.overflowSize]
  generalize (pwn.overflowSizeIdx.getD 0).toNat % 9 = idx at hidx ⊢
  interval_cases idx <;> simp [overflowSizes]

/-- Every format begins with a directive. -/
theorem exists_directive (payload : FormatPayload) :
    ∃ c cs, ascii (formatStrings.getD payload.ctorIdx "") = 37 :: c :: cs ∧ c ≠ 37 := by
  cases payload <;> exact ⟨_, _, rfl, by decide⟩

theorem not_doublePercent_format (payload : FormatPayload) (t : List UInt8) :
    ascii (formatStrings.getD payload.ctorIdx "") ≠ doublePercent t := by
  intro h
  obtain ⟨c, cs, hformat, hc⟩ := exists_directive payload
  have hprint := printfPlain_doublePercent t
  rw [← h, hformat, printfPlain.eq_def] at hprint
  simp [hc] at hprint

/-- **No number of the table wraps** to a size that is too small. -/
theorem atou_intValues (payload : IntPayload) :
    let v := ascii (intValues.getD payload.ctorIdx "")
    atou v < 2 ^ 30 ∨ atou v % 2 ^ 30 = 0 ∨ 1000 ≤ atou v % 2 ^ 30 := by
  cases payload <;> decide

/-- A URI sets nothing off that is tame. -/
theorem not_uriSetsOff_iff {r : RequestRec} : ¬ r.UriSetsOff ↔
    (∀ u ∈ r.uri, ∀ rest, u = ascii "/pwn/oob/" ++ rest → atoi rest < 5 ∨ 10 ≤ atoi rest) ∧
      ∀ u ∈ r.uri, u ≠ ascii "/pwn/crash" := by
  constructor
  · intro h
    refine ⟨fun u hu rest hrest => ?_, fun u hu hcrash => h ⟨u, hu, Or.inr hcrash⟩⟩
    by_contra hindex
    exact h ⟨u, hu, Or.inl ⟨rest, hrest, by omega, by omega⟩⟩
  · rintro ⟨hindex, hcrash⟩ ⟨u, hu, ⟨rest, hrest, hfive, hten⟩ | hu'⟩
    · have hrange := hindex u hu rest hrest
      omega
    · exact hcrash u hu hu'

section Message

variable {r : RequestRec} {pwn : PwnRequest} (hplain : pwn.Plain) (hr : Carries r pwn)
include hplain hr

/-- **Of the planted headers, the one that was sent arrives.** -/
theorem header_of_carries {key : String} (hkey : key ∈ pwnHeaderNames) :
    r.headersIn key = if pwn.strategy.headerName = key then some pwn.headerValue else none := by
  have hread := applyPwn_buildHttpRequest pwn hplain.clean
  have hown := not_called_sentHeaders hplain hkey
  have hname : (pwnHeader pwn).Called key ↔ pwn.strategy.headerName = key :=
    called_pwnHeaderNames _ (headerName_mem pwn.strategy) key hkey
  split_ifs with hsent
  · have honly : (pwn.http.sentHeaders ++ [pwnHeader pwn]).filter (fun h => h.Called key) =
        [pwnHeader pwn] := by
      rw [List.filter_append, List.filter_eq_nil_iff.mpr (by simpa using hown), List.nil_append]
      simp [hname.mpr hsent]
    have hvalue : cStr (pwnHeader pwn).value = pwn.headerValue :=
      cStr_of_not_mem (not_mem_headerValue (by decide) (by decide) (by decide) (by decide) pwn)
    rw [hr.found _ hread key hkey _ honly, hvalue]
  · refine hr.absent _ hread key hkey fun h hh => ?_
    rcases List.mem_append.mp hh with hh | hh
    · exact hown h hh
    · rw [List.mem_singleton.mp hh]
      exact fun hcalled => hsent (hname.mp hcalled)

/-- What can be the value of a planted header. -/
theorem of_mem_header {key : String} (hkey : key ∈ pwnHeaderNames) {v : List UInt8}
    (hv : v ∈ r.headersIn key) : pwn.strategy.headerName = key ∧ v = pwn.headerValue := by
  rw [header_of_carries hplain hr hkey] at hv
  split_ifs at hv with hname
  · exact ⟨hname, (Option.some.inj hv).symm⟩
  · simp at hv

/-- No strategy sends a command. -/
theorem no_command : r.cacheCommand = none ∧ r.sharedCommand = none := by
  obtain ⟨conf, hconf⟩ := Option.isSome_iff_exists.mp hr.served
  have hother : ascii "1" ≠ ascii "alloc" ∧ ascii "1" ≠ ascii "free" ∧ ascii "1" ≠ ascii "use" ∧
      ascii "1" ≠ ascii "free1" ∧ ascii "1" ≠ ascii "free2" := by decide
  obtain ⟨halloc, hfree, huse, hfree1, hfree2⟩ := hother
  constructor
  · rcases hv : r.headersIn "X-Pwn-UAF" with _ | v
    · simp [RequestRec.cacheCommand, hconf, hv]
    · obtain ⟨hname, rfl⟩ := of_mem_header hplain hr (by decide) hv
      have hs : pwn.strategy = .pwnNull := by
        revert hname
        cases pwn.strategy <;> decide
      have hone : pwn.headerValue = ascii "1" := by rw [PwnRequest.headerValue, hs]
      simp [RequestRec.cacheCommand, hconf, hv, cacheCommandOf, hone, halloc, hfree, huse]
  · rcases hv : r.headersIn "X-Pwn-Double" with _ | v
    · simp [RequestRec.sharedCommand, hconf, hv]
    · obtain ⟨hname, rfl⟩ := of_mem_header hplain hr (by decide) hv
      have hs : pwn.strategy = .pwnHeap := by
        revert hname
        cases pwn.strategy <;> decide
      have hone : pwn.headerValue = ascii "1" := by rw [PwnRequest.headerValue, hs]
      simp [RequestRec.sharedCommand, hconf, hv, sharedCommandOf, hone, halloc, hfree1, hfree2]

/-- **A message is tame unless it, or its URI, sets something off.** -/
theorem tame_iff (conf : PwnDirConfig) : r.Tame conf ↔ ¬ pwn.SetsOff ∧ ¬ r.UriSetsOff := by
  have hone : ascii "1" ≠ ascii "deref" ∧ ascii "1" ≠ ascii "partial" ∧
      atou (ascii "1") < 2 ^ 30 := by decide
  constructor
  · -- a format or a long overflow header is found in the request, and is not tame
    refine fun htame => ⟨?_, not_uriSetsOff_iff.mpr ⟨htame.index, htame.crash⟩⟩
    rintro (hs | ⟨hs, hsize⟩)
    · have hformat : r.headersIn "X-Pwn-Format" = _ := header_of_carries hplain hr (by decide)
      rw [hs] at hformat
      obtain ⟨t, ht⟩ := htame.format _ hformat
      rw [PwnRequest.headerValue, hs] at ht
      exact not_doublePercent_format _ t ht
    · have hoverflow : r.headersIn "X-Pwn-Overflow" = _ := header_of_carries hplain hr (by decide)
      rw [hs] at hoverflow
      exact absurd hsize ((length_headerValue hs).mp (htame.overflow _ hoverflow))
  · rintro ⟨hno, huri⟩
    obtain ⟨hindex, hcrash⟩ := not_uriSetsOff_iff.mp huri
    -- each planted header belongs to one strategy, which decides its value
    refine ⟨fun v hv => ?_, fun v hv => ?_, fun v hv => ?_, fun v hv => ?_, fun v hv => ?_,
      hindex, hcrash⟩
    · obtain ⟨hname, rfl⟩ := of_mem_header hplain hr (by decide) hv
      have hs : pwn.strategy = .pwnOverflow := by
        revert hname
        cases pwn.strategy <;> decide
      exact (length_headerValue hs).mpr fun hsize => hno (Or.inr ⟨hs, hsize⟩)
    · obtain ⟨hname, -⟩ := of_mem_header hplain hr (by decide) hv
      exact absurd hname (by cases pwn.strategy <;> decide)
    · obtain ⟨hname, rfl⟩ := of_mem_header hplain hr (by decide) hv
      have hs : pwn.strategy = .pwnDouble := by
        revert hname
        cases pwn.strategy <;> decide
      rw [PwnRequest.headerValue, hs]
      exact ⟨hone.1, fun h => absurd h hone.2.1⟩
    · obtain ⟨hname, rfl⟩ := of_mem_header hplain hr (by decide) hv
      have hs : pwn.strategy = .pwnInteger ∨ pwn.strategy = .pwnUaf := by
        revert hname
        cases pwn.strategy <;> decide
      rcases hs with hs | hs
      · rw [PwnRequest.headerValue, hs]
        exact atou_intValues _
      · rw [PwnRequest.headerValue, hs]
        exact Or.inl hone.2.2
    · obtain ⟨hname, -⟩ := of_mem_header hplain hr (by decide) hv
      have hs : pwn.strategy = .pwnFormat := by
        revert hname
        cases pwn.strategy <;> decide
      exact absurd (Or.inl hs) hno

end Message

/-! ### All requests -/

/-- **What the strategies reach**: of requests that bring no planted header of their own, one
sets something off if it sends a format, or 64 letters or more, or by its URI, and otherwise
nothing goes wrong – in whatever order they come, and whichever allocations find memory. -/
theorem strategies_reach {sent : List (PwnRequest × RequestRec)}
    (hplain : ∀ p ∈ sent, p.1.Plain) (hcarries : ∀ p ∈ sent, Carries p.2 p.1) :
    (∃ s, pwnRun {} (sent.map Prod.snd) = .ok s) ↔
      ∀ p ∈ sent, ¬ p.1.SetsOff ∧ ¬ p.2.UriSetsOff := by
  have hcommands : (sent.map Prod.snd).filterMap RequestRec.cacheCommand = [] ∧
      (sent.map Prod.snd).filterMap RequestRec.sharedCommand = [] := by
    simp only [List.filterMap_eq_nil_iff, List.forall_mem_map]
    exact ⟨fun p hp => (no_command (hplain p hp) (hcarries p hp)).1,
      fun p hp => (no_command (hplain p hp) (hcarries p hp)).2⟩
  have hrun := succeeds_pwnRun agrees_init (sent.map Prod.snd)
  rw [hcommands.1, hcommands.2] at hrun
  refine hrun.trans ?_
  simp only [Slot.SafeFrom, and_true, List.forall_mem_map]
  refine forall_congr' fun p => forall_congr' fun hp => ?_
  obtain ⟨conf, hconf⟩ := Option.isSome_iff_exists.mp (hcarries p hp).served
  rw [hconf]
  simp only [Option.mem_def, Option.some.injEq, forall_eq']
  exact tame_iff (hplain p hp) (hcarries p hp) conf

/-! ### Messages, one after the other -/

/-- A message with a strategy, whose request asks for a URI. -/
def messageTo (uri : String) (strategy : PwnStrategy) : PwnRequest where
  http := { method := .get, uri := ascii uri }
  strategy := strategy

/-- What httpd hands to the module for it. -/
def requestTo (uri : String) (strategy : PwnStrategy) : RequestRec where
  headersIn key :=
    if strategy.headerName = key then some (messageTo uri strategy).headerValue else none
  uri := some (ascii uri)

theorem messageTo_plain {uri : String} (huri : ∀ c ∈ ascii uri, c ≠ 13 ∧ c ≠ 10 ∧ c ≠ space)
    (strategy : PwnStrategy) : (messageTo uri strategy).Plain where
  clean := by
    refine ⟨⟨?_, ?_, ⟨fun h => (huri _ h).1 rfl, fun h => (huri _ h).2.1 rfl⟩, ?_⟩,
      fun h => (huri _ h).2.2 rfl, ?_⟩
    all_goals simp [messageTo]
  headers := by simp [messageTo]

theorem requestTo_carries {uri : String} (huri : ∀ c ∈ ascii uri, c ≠ 13 ∧ c ≠ 10 ∧ c ≠ space)
    (strategy : PwnStrategy) : Carries (requestTo uri strategy) (messageTo uri strategy) where
  found := by
    intro p hp key hkey h honly
    have hplain := messageTo_plain huri strategy
    rw [applyPwn_buildHttpRequest _ hplain.clean] at hp
    obtain rfl := Option.some.inj hp
    have hmem := List.mem_filter.mp (honly ▸ List.mem_singleton_self h)
    have hcalled : h.Called key := by simpa using hmem.2
    -- a header of the request is not called like a planted one
    rcases List.mem_append.mp hmem.1 with hh | hh
    · exact absurd hcalled (not_called_sentHeaders hplain hkey h hh)
    · rw [List.mem_singleton.mp hh] at hcalled ⊢
      have hname := (called_pwnHeaderNames _ (headerName_mem strategy) key hkey).mp hcalled
      have hvalue : cStr (pwnHeader (messageTo uri strategy)).value =
          (messageTo uri strategy).headerValue :=
        cStr_of_not_mem (not_mem_headerValue (by decide) (by decide) (by decide) (by decide) _)
      rw [hvalue]
      exact if_pos hname
  absent := by
    intro p hp key hkey hnone
    rw [applyPwn_buildHttpRequest _ (messageTo_plain huri strategy).clean] at hp
    obtain rfl := Option.some.inj hp
    have hpwn := hnone _ (List.mem_append_right _ (List.mem_singleton_self _))
    refine if_neg fun hname => hpwn ?_
    exact (called_pwnHeaderNames _ (headerName_mem strategy) key hkey).mpr hname
  served := rfl

/-- A URI that the handler gets through sets nothing off. -/
theorem not_uriSetsOff_requestTo {uri : String} {strategy : PwnStrategy}
    (h : Succeeds (pwnUri (ascii uri) none)) : ¬ (requestTo uri strategy).UriSetsOff := by
  obtain ⟨hindex, hcrash⟩ := (succeeds_pwnUri _ _).mp h
  refine not_uriSetsOff_iff.mpr ⟨fun u hu => ?_, fun u hu => ?_⟩
  · obtain rfl := Option.some.inj hu
    exact hindex
  · obtain rfl := Option.some.inj hu
    exact hcrash

/-- Bytes of a target, checked one by one. -/
theorem targetBytes_of_all {bs : List UInt8}
    (h : (bs.all fun c => c != 13 && c != 10 && c != space) = true) :
    ∀ c ∈ bs, c ≠ 13 ∧ c ≠ 10 ∧ c ≠ space := by
  intro c hc
  simpa [and_assoc] using List.all_eq_true.mp h c hc

/-- The strategies for the use after free and for the double free, one after the other, set
nothing off; one format after them does, and so does an index behind the table. -/
theorem strategies_reach_three :
    (∃ s, pwnRun {} [requestTo "/" .pwnUaf, requestTo "/pwn/oob/4" .pwnDouble] = .ok s) ∧
    (¬ ∃ s, pwnRun {} [requestTo "/" .pwnUaf, requestTo "/" .pwnFormat] = .ok s) ∧
    ¬ ∃ s, pwnRun {} [requestTo "/" .pwnUaf, requestTo "/pwn/oob/5" .pwnDouble] = .ok s := by
  have hroot : ∀ c ∈ ascii "/", c ≠ 13 ∧ c ≠ 10 ∧ c ≠ space := targetBytes_of_all (by decide)
  have hfour : ∀ c ∈ ascii "/pwn/oob/4", c ≠ 13 ∧ c ≠ 10 ∧ c ≠ space :=
    targetBytes_of_all (by decide)
  have hfive : ∀ c ∈ ascii "/pwn/oob/5", c ≠ 13 ∧ c ≠ 10 ∧ c ≠ space :=
    targetBytes_of_all (by decide)
  refine ⟨(@strategies_reach [(messageTo "/" .pwnUaf, requestTo "/" .pwnUaf),
      (messageTo "/pwn/oob/4" .pwnDouble, requestTo "/pwn/oob/4" .pwnDouble)] ?_ ?_).mpr ?_,
    fun h => ?_, fun h => ?_⟩
  · simp [messageTo_plain hroot, messageTo_plain hfour]
  · simp [requestTo_carries hroot, requestTo_carries hfour]
  · -- neither message sets anything off by itself
    have huaf : ¬ (messageTo "/" .pwnUaf).SetsOff := by simp [PwnRequest.SetsOff, messageTo]
    have hdouble : ¬ (messageTo "/pwn/oob/4" .pwnDouble).SetsOff := by
      simp [PwnRequest.SetsOff, messageTo]
    exact List.forall_mem_cons.mpr ⟨⟨huaf, not_uriSetsOff_requestTo ⟨_, rfl⟩⟩,
      List.forall_mem_singleton.mpr ⟨hdouble, not_uriSetsOff_requestTo ⟨_, rfl⟩⟩⟩
  · have hall := (@strategies_reach [(messageTo "/" .pwnUaf, requestTo "/" .pwnUaf),
      (messageTo "/" .pwnFormat, requestTo "/" .pwnFormat)] ?_ ?_).mp h
    · exact (hall (messageTo "/" .pwnFormat, requestTo "/" .pwnFormat) (by simp)).1 (Or.inl rfl)
    · simp [messageTo_plain hroot]
    · simp [requestTo_carries hroot]
  · have hall := (@strategies_reach [(messageTo "/" .pwnUaf, requestTo "/" .pwnUaf),
      (messageTo "/pwn/oob/5" .pwnDouble, requestTo "/pwn/oob/5" .pwnDouble)] ?_ ?_).mp h
    · exact (hall (messageTo "/pwn/oob/5" .pwnDouble, requestTo "/pwn/oob/5" .pwnDouble)
        (by simp)).2 ⟨_, rfl, Or.inl ⟨ascii "5", by decide, by decide, by decide⟩⟩
    · simp [messageTo_plain hroot, messageTo_plain hfive]
    · simp [requestTo_carries hroot, requestTo_carries hfive]

end Apatchy
