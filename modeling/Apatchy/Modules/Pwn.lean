import Apatchy.Converters.HttpRequest
import Apatchy.Foundations.Allocations
import Apatchy.Foundations.Script
import Mathlib.Tactic.IntervalCases

/-!
# The module with planted bugs

`mod_pwn.c` is the module on which the framework is tried out: each of its functions has a
memory error in it that a header of a request, or its URI, sets off. A pointer that is freed
and kept (`g_cached_data`, and `shared_ptr` of `vuln_double_free`) outlives the request, so
some of the errors take several requests.

A request is handled until something goes wrong (`Apatchy.pwnHandler`); requests that one
process handles are `Apatchy.pwnRun`. `Apatchy.pwnRun_ok_iff` says of which requests, in which
order, nothing goes wrong: each of them is *tame* (`Apatchy.RequestRec.Tame`), which says what
a value or a URI must look like whatever came before, and the commands to the two pointers are
safe in the sense of `Apatchy.Slot.SafeFrom`, whichever calls of `malloc` find memory.

| header | function | what goes wrong |
| --- | --- | --- |
| `X-Pwn-Overflow` | `Apatchy.vulnStackOverflow` | 64 bytes or more, with no room for the NUL |
| `X-Pwn-Heap` | `Apatchy.vulnHeapOverflow` | as many bytes as there is room for, or more |
| `X-Pwn-UAF` | `Apatchy.vulnUseAfterFree` | any command after a block was freed |
| `X-Pwn-Null` | `Apatchy.vulnNullDeref` | `deref`, and `partial` without a secret |
| `X-Pwn-Integer` | `Apatchy.vulnIntegerOverflow` | `4 * count` wraps to less than 4000 |
| `X-Pwn-Format` | `Apatchy.vulnFormatString` | a directive |
| `X-Pwn-Double` | `Apatchy.vulnDoubleFree` | a second free without an allocation between |
-/

namespace Apatchy

/-! ### Numbers, as C reads them -/

/-- `isspace`, in the C locale. -/
def isCSpace (c : UInt8) : Bool := c == 32 || (9 ≤ c && c ≤ 13)

/-- `isdigit`. -/
def isCDigit (c : UInt8) : Bool := 48 ≤ c && c ≤ 57

/-- The sign of a number, and what comes after it. -/
def cSign : List UInt8 → Bool × List UInt8
  | 45 :: cs => (true, cs)
  | 43 :: cs => (false, cs)
  | cs => (false, cs)

/-- `atol`, where a `long` has 64 bits: a number out of range is brought to the end of it. -/
def atol (s : List UInt8) : ℤ :=
  let (negative, digits) := cSign (s.dropWhile isCSpace)
  let n : ℕ := (digits.takeWhile isCDigit).foldl (fun n c => 10 * n + (c.toNat - 48)) 0
  let z : ℤ := if negative then -n else n
  max (-9223372036854775808) (min 9223372036854775807 z)

/-- `atoi`, where an `int` has 32 bits. -/
def atoi (s : List UInt8) : ℤ := (atol s).bmod 4294967296

/-- `(unsigned int)atol(s)`. -/
def atou (s : List UInt8) : ℕ := (atol s % 4294967296).toNat

theorem atou_lt (s : List UInt8) : atou s < 4294967296 := by
  have hlt := Int.emod_lt_of_pos (atol s) (by decide : (0 : ℤ) < 4294967296)
  have hnonneg := Int.emod_nonneg (atol s) (by decide : (4294967296 : ℤ) ≠ 0)
  rw [atou]
  omega

/-! ### A request -/

/-- `pwn_dir_config`, as far as it is read. -/
structure PwnDirConfig where
  /-- `enabled`. -/
  enabled : Bool := false
  /-- `secret_key`, `none` being the null pointer. -/
  secretKey : Option (List UInt8) := none

/-- `request_rec`, as far as it is read; the texts are C strings. -/
structure RequestRec where
  /-- `handler`. -/
  handler : Option (List UInt8) := some (ascii "pwn-handler")
  /-- The configuration of the module for this request. -/
  conf : Option PwnDirConfig := some { enabled := true }
  /-- `headers_in`: what `apr_table_get` finds for a name. -/
  headersIn : String → Option (List UInt8) := fun _ => none
  /-- `uri`. -/
  uri : Option (List UInt8) := none
  /-- `args`. -/
  args : Option (List UInt8) := none
  /-- Whether `malloc(128)` finds memory while the request is handled. -/
  cacheFound : Bool := true
  /-- Whether `malloc(64)` does. -/
  sharedFound : Bool := true

/-! ### The functions with the bugs -/

/-- What goes wrong. -/
inductive PwnDefect where
  /-- A write behind the end of an array on the stack. -/
  | stackOverflow : PwnDefect
  /-- A write behind the end of a block. -/
  | heapOverflow : PwnDefect
  /-- A released block is used or released. -/
  | memory (fault : MemoryFault) : PwnDefect
  /-- The null pointer is followed. -/
  | nullDeref : PwnDefect
  /-- A directive finds no argument. -/
  | formatString : PwnDefect
  /-- A read behind the end of a table. -/
  | outOfBoundsRead : PwnDefect
deriving DecidableEq, Repr

/-- The variables of the module that outlive a request, and the heap. -/
structure PwnState where
  /-- The heap. -/
  heap : Allocations := {}
  /-- `g_cached_data`. -/
  gCachedData : Option ℕ := none
  /-- `g_cache_freed`. -/
  gCacheFreed : Bool := false
  /-- `shared_ptr` of `vuln_double_free`. -/
  sharedPtr : Option ℕ := none
deriving DecidableEq, Repr

/-- `vuln_stack_overflow`: the value is copied to 64 bytes. -/
def vulnStackOverflow (input : List UInt8) : Except PwnDefect (List UInt8) :=
  if 0 < input.length ∧ 64 < input.length + 1 then .error .stackOverflow else .ok []

/-- `strchr(s, ':')`: what is behind the first colon. -/
def afterColon (s : List UInt8) : Option (List UInt8) :=
  (find [colon] s).map fun i => s.drop (i + 1)

/-- `vuln_heap_overflow`: what is behind the colon is copied to as many bytes as the number
before it says. -/
def vulnHeapOverflow (input : List UInt8) : Except PwnDefect (List UInt8) :=
  match afterColon input with
  | none => .ok []
  | some data =>
    let allocSize := atoi input
    if allocSize ≤ 0 ∨ 1024 < allocSize then .ok []
    else if allocSize < data.length + 1 then .error .heapOverflow
    else .ok []

/-- `free` of a pointer that is not null. -/
def PwnState.release (s : PwnState) (b : ℕ) : Except PwnDefect PwnState :=
  match s.heap.free b with
  | .error fault => .error (.memory fault)
  | .ok heap => .ok { s with heap := heap }

/-- `if (p) free(p)`. -/
def PwnState.freeHeld (s : PwnState) : Option ℕ → Except PwnDefect PwnState
  | none => .ok s
  | some b => s.release b

/-- `vuln_use_after_free`. -/
def vulnUseAfterFree (found : Bool) (input : List UInt8) (s : PwnState) :
    Except PwnDefect (List UInt8 × PwnState) :=
  if input = ascii "alloc" then do
    let s ← s.freeHeld s.gCachedData
    if found then
      .ok ([], { s with
        heap := s.heap.malloc.2, gCachedData := some s.heap.malloc.1, gCacheFreed := false })
    else .ok ([], { s with gCachedData := none })
  else if input = ascii "free" then
    match s.gCachedData with
    | none => .ok ([], s)
    | some b => do
      -- the variable goes on pointing at the block
      let s ← s.release b
      .ok ([], { s with gCacheFreed := true })
  else if input = ascii "use" then
    match s.gCachedData with
    | none => .ok ([], s)
    | some b =>
      -- the flag is not looked at
      match s.heap.access b with
      | .error fault => .error (.memory fault)
      | .ok () => .ok (ascii "Cache data: cached_secret_data_here\n", s)
  else .ok ([], s)

/-- `vuln_null_deref`. -/
def vulnNullDeref (conf : PwnDirConfig) (input : List UInt8) : Except PwnDefect (List UInt8) :=
  if input = ascii "deref" then .error .nullDeref
  else if input = ascii "partial" then
    match conf.secretKey with
    | none => .error .nullDeref
    | some key => .ok (ascii "Key length: " ++ toDecimal key.length ++ ascii "\n")
  else .ok []

/-- `vuln_integer_overflow`: the size is computed in 32 bits, and no more than 1000 numbers
are written. -/
def vulnIntegerOverflow (input : List UInt8) : Except PwnDefect (List UInt8) :=
  let count := atou input
  let allocSize := count * 4 % 4294967296
  if 0 < allocSize ∧ allocSize < 0x10000 then
    if (List.range (min count 1000)).any fun i => allocSize < 4 * i + 4 then .error .heapOverflow
    else .ok []
  else .ok []

/-- What a format without arguments prints: `none` where a directive would take one. -/
def printfPlain : List UInt8 → Option (List UInt8)
  | [] => some []
  | c :: cs =>
    if c = 37 then
      match cs with
      | 37 :: cs => (printfPlain cs).map (37 :: ·)
      | _ => none
    else (printfPlain cs).map (c :: ·)

/-- `vuln_format_string`: the value is the format of `snprintf` to 256 bytes. -/
def vulnFormatString (input : List UInt8) : Except PwnDefect (List UInt8) :=
  match printfPlain input with
  | none => .error .formatString
  | some msg => .ok (ascii "Log: " ++ msg.take 255 ++ ascii "\n")

/-- `vuln_double_free`. -/
def vulnDoubleFree (found : Bool) (input : List UInt8) (s : PwnState) :
    Except PwnDefect PwnState :=
  if input = ascii "alloc" then
    if found then .ok { s with heap := s.heap.malloc.2, sharedPtr := some s.heap.malloc.1 }
    else .ok { s with sharedPtr := none }
  else if input = ascii "free1" then s.freeHeld s.sharedPtr
  else if input = ascii "free2" then s.freeHeld s.sharedPtr
  else .ok s

/-- `secret_table`. -/
def secretTable : List String :=
  ["public_value_0", "public_value_1", "public_value_2", "SECRET_ADMIN_KEY", "SECRET_API_TOKEN"]

/-- `vuln_oob_read`. -/
def vulnOobRead (index : ℤ) : Except PwnDefect (List UInt8) :=
  if 0 ≤ index then
    if index < 10 then
      match secretTable[index.toNat]? with
      | none => .error .outOfBoundsRead
      | some value =>
        .ok (ascii "Value[" ++ toDecimal index.toNat ++ ascii "]: " ++ ascii value ++ ascii "\n")
    else .ok []
  else .ok []

/-- `vuln_path_traversal`: the path is written to 512 bytes, and cut to them. -/
def vulnPathTraversal (filename : List UInt8) : List UInt8 :=
  ascii "Would read: " ++ (ascii "/var/www/data/" ++ filename).take 511 ++ ascii "\n"

/-- What is answered where no endpoint is asked for. -/
def pwnUsage : List UInt8 :=
  ["mod_pwn active\n", "Available endpoints:\n", "  /pwn/oob/<index> - Out of bounds read\n",
    "  /pwn/read?file=<path> - Path traversal\n", "  /pwn/crash - Immediate crash\n",
    "\nHeaders:\n", "  X-Pwn-Overflow: <data> - Stack overflow\n",
    "  X-Pwn-Heap: <size>:<data> - Heap overflow\n",
    "  X-Pwn-UAF: alloc|free|use - Use-after-free\n", "  X-Pwn-Null: deref|partial - NULL deref\n",
    "  X-Pwn-Integer: <number> - Integer overflow\n", "  X-Pwn-Format: <fmt> - Format string\n",
    "  X-Pwn-Double: alloc|free1|free2 - Double free\n"].flatMap ascii

/-- The part of the handler that looks at the URI. -/
def pwnUri (uri : List UInt8) (args : Option (List UInt8)) : Except PwnDefect (List UInt8) :=
  if ascii "/pwn/oob/" <+: uri then vulnOobRead (atoi (uri.drop 9))
  else if ascii "/pwn/read" <+: uri ∧ args.isSome then
    if ascii "file=" <+: args.getD [] then .ok (vulnPathTraversal ((args.getD []).drop 5))
    else .ok []
  else if uri = ascii "/pwn/crash" then .error .nullDeref
  else .ok pwnUsage

/-- What a function answers to a header, if it is there. -/
def onHeader (value : Option (List UInt8)) (f : List UInt8 → Except PwnDefect (List UInt8)) :
    Except PwnDefect (List UInt8) :=
  match value with
  | none => .ok []
  | some v => f v

/-- What is done about the cache. -/
def RequestRec.onCache (r : RequestRec) (s : PwnState) :
    Except PwnDefect (List UInt8 × PwnState) :=
  match r.headersIn "X-Pwn-UAF" with
  | none => .ok ([], s)
  | some v => vulnUseAfterFree r.cacheFound v s

/-- What is done about the shared block. -/
def RequestRec.onShared (r : RequestRec) (s : PwnState) : Except PwnDefect PwnState :=
  match r.headersIn "X-Pwn-Double" with
  | none => .ok s
  | some v => vulnDoubleFree r.sharedFound v s

/-- What the handler returns. -/
inductive PwnReply where
  /-- `DECLINED`. -/
  | declined : PwnReply
  /-- `OK`, and the text of the response. -/
  | served (text : List UInt8) : PwnReply
deriving DecidableEq, Repr

/-- The configuration by which a request is served, unless it is declined. -/
def RequestRec.servedBy (r : RequestRec) : Option PwnDirConfig :=
  if r.handler = some (ascii "pwn-handler") then r.conf.filter (·.enabled) else none

/-- **`pwn_handler`.** -/
def pwnHandler (r : RequestRec) (s : PwnState) : Except PwnDefect (PwnReply × PwnState) :=
  match r.servedBy with
  | none => .ok (.declined, s)
  | some conf => do
    let overflow ← onHeader (r.headersIn "X-Pwn-Overflow") vulnStackOverflow
    let heap ← onHeader (r.headersIn "X-Pwn-Heap") vulnHeapOverflow
    let (uaf, s) ← r.onCache s
    let null ← onHeader (r.headersIn "X-Pwn-Null") (vulnNullDeref conf)
    let integer ← onHeader (r.headersIn "X-Pwn-Integer") vulnIntegerOverflow
    let format ← onHeader (r.headersIn "X-Pwn-Format") vulnFormatString
    let s ← r.onShared s
    let uri ← onHeader r.uri fun uri => pwnUri uri r.args
    .ok (.served (overflow ++ heap ++ uaf ++ null ++ integer ++ format ++ uri), s)

/-- **The requests that a process handles**, until something goes wrong. -/
def pwnRun (s : PwnState) : List RequestRec → Except PwnDefect PwnState
  | [] => .ok s
  | r :: rs =>
    match pwnHandler r s with
    | .error defect => .error defect
    | .ok (_, s) => pwnRun s rs

/-! ### What a single request must look like -/

/-- A text with each percent sign doubled. -/
def doublePercent (t : List UInt8) : List UInt8 :=
  t.flatMap fun c => if c = 37 then [37, 37] else [c]

/-- **A request that sets nothing off by itself**, whatever came before it. -/
structure RequestRec.Tame (r : RequestRec) (conf : PwnDirConfig) : Prop where
  /-- There is room for the value and its NUL. -/
  overflow : ∀ v ∈ r.headersIn "X-Pwn-Overflow", v.length < 64
  /-- There is room for what is behind the first colon. -/
  heap : ∀ v ∈ r.headersIn "X-Pwn-Heap", ∀ size data, v = size ++ colon :: data → colon ∉ size →
    0 < atoi v → atoi v ≤ 1024 → (data.length : ℤ) < atoi v
  /-- No null pointer is asked for. -/
  null : ∀ v ∈ r.headersIn "X-Pwn-Null",
    v ≠ ascii "deref" ∧ (v = ascii "partial" → conf.secretKey ≠ none)
  /-- Four times the number does not wrap to a size too small. -/
  integer : ∀ v ∈ r.headersIn "X-Pwn-Integer",
    atou v < 2 ^ 30 ∨ atou v % 2 ^ 30 = 0 ∨ 1000 ≤ atou v % 2 ^ 30
  /-- There is no directive. -/
  format : ∀ v ∈ r.headersIn "X-Pwn-Format", ∃ t, v = doublePercent t
  /-- No index is between the table and the bound it is compared with. -/
  index : ∀ u ∈ r.uri, ∀ rest, u = ascii "/pwn/oob/" ++ rest → atoi rest < 5 ∨ 10 ≤ atoi rest
  /-- The endpoint that crashes is not asked for. -/
  crash : ∀ u ∈ r.uri, u ≠ ascii "/pwn/crash"

/-- The command to the cache that a value is. -/
def cacheCommandOf (found : Bool) (v : List UInt8) : Option SlotCommand :=
  if v = ascii "alloc" then some (.alloc found)
  else if v = ascii "free" then some .free
  else if v = ascii "use" then some .use
  else none

/-- The command to the shared block that a value is. -/
def sharedCommandOf (found : Bool) (v : List UInt8) : Option SlotCommand :=
  if v = ascii "alloc" then some (.alloc found)
  else if v = ascii "free1" ∨ v = ascii "free2" then some .free
  else none

/-- The command to the cache in a request, if it is served. -/
def RequestRec.cacheCommand (r : RequestRec) : Option SlotCommand := do
  let _ ← r.servedBy
  cacheCommandOf r.cacheFound (← r.headersIn "X-Pwn-UAF")

/-- The command to the shared block in a request, if it is served. -/
def RequestRec.sharedCommand (r : RequestRec) : Option SlotCommand := do
  let _ ← r.servedBy
  sharedCommandOf r.sharedFound (← r.headersIn "X-Pwn-Double")

/-! ### The functions, one by one -/

theorem succeeds_vulnStackOverflow (v : List UInt8) :
    Succeeds (vulnStackOverflow v) ↔ v.length < 64 := by
  rw [vulnStackOverflow]
  split_ifs with h
  · simp only [not_succeeds_error, false_iff]
    omega
  · simp only [succeeds_ok, true_iff]
    omega

/-- What is behind the first colon. -/
theorem afterColon_eq_some_iff {v data : List UInt8} :
    afterColon v = some data ↔ ∃ size, v = size ++ colon :: data ∧ colon ∉ size := by
  constructor
  · intro h
    have hmem : colon ∈ v := by
      by_contra hnot
      have hnone : find [colon] v = none :=
        find_eq_none_iff.mpr fun hpart => hnot (hpart.subset (List.mem_singleton_self _))
      simp [afterColon, hnone] at h
    obtain ⟨size, rest, rfl, hsize⟩ := List.eq_append_cons_of_mem hmem
    have hfind : find [colon] (size ++ [colon] ++ rest) = some size.length := find_field hsize _
    rw [List.append_assoc, List.singleton_append] at hfind
    simp only [afterColon, hfind, Option.map_some, Option.some.injEq] at h
    have hdrop : (size ++ colon :: rest).drop (size.length + 1) = rest := by simp
    exact ⟨size, by rw [← h, hdrop], hsize⟩
  · rintro ⟨size, rfl, hsize⟩
    have hfind : find [colon] (size ++ [colon] ++ data) = some size.length := find_field hsize _
    rw [List.append_assoc, List.singleton_append] at hfind
    simp [afterColon, hfind]

theorem succeeds_vulnHeapOverflow (v : List UInt8) :
    Succeeds (vulnHeapOverflow v) ↔ ∀ size data, v = size ++ colon :: data → colon ∉ size →
      0 < atoi v → atoi v ≤ 1024 → (data.length : ℤ) < atoi v := by
  have hsplit : (∀ size data, v = size ++ colon :: data → colon ∉ size →
      0 < atoi v → atoi v ≤ 1024 → (data.length : ℤ) < atoi v) ↔
      ∀ data, afterColon v = some data → 0 < atoi v → atoi v ≤ 1024 →
        (data.length : ℤ) < atoi v := by
    constructor
    · intro h data hdata
      obtain ⟨size, hv, hsize⟩ := afterColon_eq_some_iff.mp hdata
      exact h size data hv hsize
    · intro h size data hv hsize
      exact h data (afterColon_eq_some_iff.mpr ⟨size, hv, hsize⟩)
  rw [hsplit, vulnHeapOverflow]
  rcases hdata : afterColon v with _ | data
  · simp
  · simp only [Option.some.injEq, forall_eq']
    split_ifs with hrange hroom
    · simp only [succeeds_ok, true_iff]
      omega
    · simp only [not_succeeds_error, false_iff]
      omega
    · simp only [succeeds_ok, true_iff]
      omega

theorem succeeds_vulnNullDeref (conf : PwnDirConfig) (v : List UInt8) :
    Succeeds (vulnNullDeref conf v) ↔
      v ≠ ascii "deref" ∧ (v = ascii "partial" → conf.secretKey ≠ none) := by
  rw [vulnNullDeref]
  split_ifs with hderef hsecret
  · simp [hderef]
  · rcases hkey : conf.secretKey with _ | key
    · simp [hsecret]
    · simp only [succeeds_ok, ne_eq, reduceCtorEq, not_false_eq_true, implies_true, and_true,
        true_iff]
      exact hderef
  · simp [hderef, hsecret]

/-- Numbers are written behind the end if the last one is. -/
theorem any_range_lt_iff (n size : ℕ) :
    ((List.range n).any fun i => size < 4 * i + 4) = true ↔ size < 4 * n ∧ 0 < n := by
  simp only [List.any_eq_true, List.mem_range, decide_eq_true_eq]
  constructor
  · rintro ⟨i, hi, hlt⟩
    omega
  · rintro ⟨hlt, hpos⟩
    exact ⟨n - 1, by omega, by omega⟩

theorem succeeds_vulnIntegerOverflow (v : List UInt8) :
    Succeeds (vulnIntegerOverflow v) ↔
      atou v < 2 ^ 30 ∨ atou v % 2 ^ 30 = 0 ∨ 1000 ≤ atou v % 2 ^ 30 := by
  have hlt := atou_lt v
  simp only [vulnIntegerOverflow, any_range_lt_iff]
  split_ifs with hsize hany
  · simp only [not_succeeds_error, false_iff]
    omega
  · simp only [succeeds_ok, true_iff]
    omega
  · simp only [succeeds_ok, true_iff]
    omega

theorem printfPlain_of_ne {c : UInt8} (hc : c ≠ 37) (cs : List UInt8) :
    printfPlain (c :: cs) = (printfPlain cs).map (c :: ·) := by
  rw [printfPlain.eq_def]
  simp [hc]

theorem printfPlain_percent (cs : List UInt8) :
    printfPlain (37 :: 37 :: cs) = (printfPlain cs).map (37 :: ·) := by
  rw [printfPlain.eq_def]
  simp

@[simp] theorem doublePercent_nil : doublePercent [] = [] := rfl

theorem doublePercent_cons (c : UInt8) (t : List UInt8) :
    doublePercent (c :: t) = (if c = 37 then [37, 37] else [c]) ++ doublePercent t := rfl

/-- **A format without arguments prints what it is the escape of.** -/
theorem printfPlain_doublePercent (t : List UInt8) : printfPlain (doublePercent t) = some t := by
  induction t with
  | nil => rfl
  | cons c t ih =>
    rw [doublePercent_cons]
    split_ifs with hc
    · subst hc
      simp [printfPlain_percent, ih]
    · simp [printfPlain_of_ne hc, ih]

theorem printfPlain_eq_some_iff {v t : List UInt8} :
    printfPlain v = some t ↔ v = doublePercent t := by
  refine ⟨fun h => ?_, fun h => h ▸ printfPlain_doublePercent t⟩
  induction v using printfPlain.induct generalizing t with
  | case1 =>
    obtain rfl : [] = t := Option.some.inj h
    rfl
  | case2 cs ih =>
    rw [printfPlain_percent] at h
    obtain ⟨u, hu, rfl⟩ := Option.map_eq_some_iff.mp h
    rw [ih hu, doublePercent_cons, if_pos rfl]
    rfl
  | case3 cs hcs =>
    rw [printfPlain.eq_def] at h
    simp at h
  | case4 c cs hc ih =>
    rw [printfPlain_of_ne hc] at h
    obtain ⟨u, hu, rfl⟩ := Option.map_eq_some_iff.mp h
    rw [ih hu, doublePercent_cons, if_neg hc]
    rfl

theorem succeeds_vulnFormatString (v : List UInt8) :
    Succeeds (vulnFormatString v) ↔ ∃ t, v = doublePercent t := by
  rw [vulnFormatString]
  rcases hv : printfPlain v with _ | t
  · simp only [not_succeeds_error, false_iff, not_exists]
    intro t ht
    simp [printfPlain_eq_some_iff.mpr ht] at hv
  · simp only [succeeds_ok, true_iff]
    exact ⟨t, printfPlain_eq_some_iff.mp hv⟩

theorem succeeds_vulnOobRead (index : ℤ) :
    Succeeds (vulnOobRead index) ↔ index < 5 ∨ 10 ≤ index := by
  simp only [vulnOobRead]
  split_ifs with hnonneg hlt
  · obtain ⟨n, rfl⟩ := Int.eq_ofNat_of_zero_le hnonneg
    have hn : n < 10 := by omega
    interval_cases n <;> simp [secretTable]
  · simp only [succeeds_ok, true_iff]
    omega
  · simp only [succeeds_ok, true_iff]
    omega

/-- The endpoint that crashes is not one of the others. -/
theorem ne_crash_of_read {uri : List UInt8} (h : ascii "/pwn/read" <+: uri) :
    uri ≠ ascii "/pwn/crash" := by
  rintro rfl
  exact absurd h (by decide)

theorem ne_crash_of_oob {uri : List UInt8} (h : ascii "/pwn/oob/" <+: uri) :
    uri ≠ ascii "/pwn/crash" := by
  rintro rfl
  exact absurd h (by decide)

theorem succeeds_pwnUri (uri : List UInt8) (args : Option (List UInt8)) :
    Succeeds (pwnUri uri args) ↔
      (∀ rest, uri = ascii "/pwn/oob/" ++ rest → atoi rest < 5 ∨ 10 ≤ atoi rest) ∧
        uri ≠ ascii "/pwn/crash" := by
  by_cases hoob : ascii "/pwn/oob/" <+: uri
  · obtain ⟨rest, rfl⟩ := hoob
    have hne := ne_crash_of_oob ⟨rest, rfl⟩
    have hdrop : (ascii "/pwn/oob/" ++ rest).drop 9 = rest := rfl
    simp [pwnUri, hdrop, succeeds_vulnOobRead, hne]
  · have hno : ∀ rest, uri = ascii "/pwn/oob/" ++ rest → atoi rest < 5 ∨ 10 ≤ atoi rest :=
      fun rest h => absurd ⟨rest, h.symm⟩ hoob
    rw [pwnUri, if_neg hoob]
    split_ifs with hread hfile hcrash
    · simp only [succeeds_ok, true_iff]
      exact ⟨hno, ne_crash_of_read hread.1⟩
    · simp only [succeeds_ok, true_iff]
      exact ⟨hno, ne_crash_of_read hread.1⟩
    · simp [hcrash]
    · simp only [succeeds_ok, true_iff]
      exact ⟨hno, hcrash⟩

/-! ### The two pointers -/

/-- **What the two variables of a state hold**. -/
structure PwnState.Agrees (s : PwnState) (a b : Slot) : Prop where
  /-- The cache and the shared block. -/
  pair : s.heap.Pair s.gCachedData s.sharedPtr a b
  /-- **The flag that nothing reads says whether the cache dangles.** -/
  flag : s.gCacheFreed = true ↔ a = .dangling

theorem agrees_init : ({} : PwnState).Agrees .empty .empty where
  pair := ⟨⟨by simp, by simp⟩, ⟨by simp, by simp⟩, by simp, rfl, rfl⟩
  flag := by simp

/-- A block is released unless it was. -/
theorem release_eq (s : PwnState) (x : ℕ) :
    s.release x = if s.heap.slot (some x) = .dangling then .error (.memory .doubleFree)
      else .ok { s with heap := { s.heap with released := x :: s.heap.released } } := by
  rw [PwnState.release, Allocations.free_eq]
  split_ifs
  · rfl
  · rfl

section Commands

variable {s : PwnState} {a b : Slot} (hs : s.Agrees a b) {found : Bool} {v : List UInt8}
include hs

/-- What an allocation frees first. -/
theorem release_held :
    ∃ heap, s.freeHeld s.gCachedData =
      (if a = .dangling then .error (.memory .doubleFree) else .ok { s with heap := heap }) ∧
      ∃ a', heap.Pair s.gCachedData s.sharedPtr a' b := by
  have hpair := hs.pair
  rcases Option.eq_none_or_eq_some s.gCachedData with hheld | ⟨x, hheld⟩
  · have hempty : a = .empty := by rw [← hpair.slot_left, hheld]; rfl
    have hfree : s.freeHeld s.gCachedData = .ok s := by rw [hheld]; rfl
    refine ⟨s.heap, ?_, a, hpair⟩
    rw [hfree, hempty, if_neg (by decide)]
  · have hfree : s.freeHeld s.gCachedData = s.release x := by rw [hheld]; rfl
    have hslot : s.heap.slot (some x) = a := by rw [← hheld]; exact hpair.slot_left
    rw [hheld] at hpair
    refine ⟨{ s.heap with released := x :: s.heap.released }, ?_, .dangling, ?_⟩
    · rw [hfree, release_eq, hslot]
    · rw [hheld]
      exact hpair.free

theorem vulnUseAfterFree_alloc :
    (Succeeds (vulnUseAfterFree found (ascii "alloc") s) ↔ a ≠ .dangling) ∧
    ∀ p, vulnUseAfterFree found (ascii "alloc") s = .ok p →
      p.2.Agrees (if found then .live else .empty) b := by
  obtain ⟨heap, hrelease, a', hpair⟩ := release_held hs
  rw [vulnUseAfterFree, if_pos rfl, hrelease]
  by_cases ha : a = .dangling
  · simp [ha, bind, Except.bind]
  · have hflag : s.gCacheFreed = false := by
      simpa [ha] using hs.flag
    rcases found with _ | _
    · simp only [ha, bind, Except.bind, if_false, Bool.false_eq_true, succeeds_ok, ne_eq,
        not_false_eq_true, true_and, Except.ok.injEq]
      rintro p rfl
      exact ⟨hpair.forget, by simp [hflag]⟩
    · simp only [ha, bind, Except.bind, if_false, if_true, succeeds_ok, ne_eq,
        not_false_eq_true, true_and, Except.ok.injEq]
      rintro p rfl
      exact ⟨hpair.malloc, by simp⟩

theorem vulnUseAfterFree_free :
    (Succeeds (vulnUseAfterFree found (ascii "free") s) ↔ a ≠ .dangling) ∧
    ∀ p, vulnUseAfterFree found (ascii "free") s = .ok p → p.2.Agrees (a.next .free) b := by
  have hpair := hs.pair
  rw [vulnUseAfterFree, if_neg (by decide), if_pos rfl]
  rcases hheld : s.gCachedData with _ | x
  · obtain rfl : a = .empty := by rw [← hpair.slot_left, hheld]; rfl
    simp only [succeeds_ok, ne_eq, reduceCtorEq, not_false_eq_true, true_and, Except.ok.injEq]
    rintro p rfl
    exact hs
  · rw [hheld] at hpair
    simp only [release_eq, hpair.slot_left]
    rcases ha : a with _ | _ | _
    · exact absurd (hpair.slot_left.trans ha) Allocations.slot_some_ne_empty
    · simp only [reduceCtorEq, if_false, bind, Except.bind, succeeds_ok, ne_eq, not_false_eq_true,
        true_and, Except.ok.injEq]
      rintro p rfl
      refine ⟨?_, by simp [Slot.next]⟩
      simp only [hheld]
      exact hpair.free
    · simp [bind, Except.bind]

theorem vulnUseAfterFree_use :
    (Succeeds (vulnUseAfterFree found (ascii "use") s) ↔ a ≠ .dangling) ∧
    ∀ p, vulnUseAfterFree found (ascii "use") s = .ok p → p.2.Agrees (a.next .use) b := by
  have hpair := hs.pair
  have hnext : a.next .use = a := by cases a <;> rfl
  rw [vulnUseAfterFree, if_neg (by decide), if_neg (by decide), if_pos rfl, hnext]
  rcases hheld : s.gCachedData with _ | x
  · obtain rfl : a = .empty := by rw [← hpair.slot_left, hheld]; rfl
    simp only [succeeds_ok, ne_eq, reduceCtorEq, not_false_eq_true, true_and, Except.ok.injEq]
    rintro p rfl
    exact hs
  · rw [hheld] at hpair
    have hdangling : a = .dangling ↔ x ∈ s.heap.released := by
      rw [← hpair.slot_left, Allocations.slot_some_eq_dangling]
    by_cases hx : x ∈ s.heap.released
    · simp [Allocations.access, hx, hdangling]
    · simp only [Allocations.access, hx, if_false, succeeds_ok, ne_eq, hdangling, not_false_eq_true,
        true_and, Except.ok.injEq]
      rintro p rfl
      exact hs

/-- **What a value does to the cache.** -/
theorem vulnUseAfterFree_spec :
    (Succeeds (vulnUseAfterFree found v s) ↔
      ∀ c ∈ cacheCommandOf found v, ¬ a.Faults true c) ∧
    ∀ p, vulnUseAfterFree found v s = .ok p →
      p.2.Agrees ((cacheCommandOf found v).elim a a.next) b := by
  by_cases halloc : v = ascii "alloc"
  · subst halloc
    simpa [cacheCommandOf, Slot.Faults, Slot.Touches, Slot.next] using vulnUseAfterFree_alloc hs
  by_cases hfree : v = ascii "free"
  · subst hfree
    simpa [cacheCommandOf, Slot.Faults, Slot.Touches, halloc] using vulnUseAfterFree_free hs
  by_cases huse : v = ascii "use"
  · subst huse
    simpa [cacheCommandOf, Slot.Faults, Slot.Touches, halloc, hfree] using vulnUseAfterFree_use hs
  · simp only [vulnUseAfterFree, cacheCommandOf, halloc, hfree, huse, if_false, succeeds_ok,
      Option.mem_def, reduceCtorEq, false_implies, implies_true, true_and, Except.ok.injEq,
      Option.elim_none]
    rintro p rfl
    exact hs

/-- Freeing the shared block. -/
theorem free_shared :
    (Succeeds (s.freeHeld s.sharedPtr) ↔ b ≠ .dangling) ∧
    ∀ s', s.freeHeld s.sharedPtr = .ok s' → s'.Agrees a (b.next .free) := by
  have hpair := hs.pair
  rcases hheld : s.sharedPtr with _ | x
  · obtain rfl : b = .empty := by rw [← hpair.slot_right, hheld]; rfl
    simp only [PwnState.freeHeld, succeeds_ok, ne_eq, reduceCtorEq, not_false_eq_true, true_and,
      Except.ok.injEq]
    rintro s' rfl
    exact hs
  · rw [hheld] at hpair
    simp only [PwnState.freeHeld, release_eq, hpair.slot_right]
    rcases hb : b with _ | _ | _
    · exact absurd (hpair.slot_right.trans hb) Allocations.slot_some_ne_empty
    · simp only [reduceCtorEq, if_false, succeeds_ok, ne_eq, not_false_eq_true, true_and,
        Except.ok.injEq]
      rintro s' rfl
      refine ⟨?_, hs.flag⟩
      simp only [hheld]
      exact hpair.symm.free.symm
    · simp

/-- **What a value does to the shared block.** -/
theorem vulnDoubleFree_spec :
    (Succeeds (vulnDoubleFree found v s) ↔ ∀ c ∈ sharedCommandOf found v, ¬ b.Faults false c) ∧
    ∀ s', vulnDoubleFree found v s = .ok s' →
      s'.Agrees a ((sharedCommandOf found v).elim b b.next) := by
  by_cases halloc : v = ascii "alloc"
  · -- a new block is put in place of the shared one, freed or not
    have hcommand : sharedCommandOf found v = some (.alloc found) := by
      simp [sharedCommandOf, halloc]
    have hnever : ∀ c ∈ some (SlotCommand.alloc found), ¬ b.Faults false c := by
      rintro c hc ⟨-, htouches⟩
      obtain rfl := Option.some.inj hc
      exact absurd htouches (by simp [Slot.Touches])
    rw [hcommand, vulnDoubleFree, if_pos halloc]
    rcases found with _ | _
    · refine ⟨iff_of_true (succeeds_ok _) hnever, fun s' h => ?_⟩
      obtain rfl := Except.ok.inj h
      exact ⟨hs.pair.symm.forget.symm, hs.flag⟩
    · refine ⟨iff_of_true (succeeds_ok _) hnever, fun s' h => ?_⟩
      obtain rfl := Except.ok.inj h
      exact ⟨hs.pair.symm.malloc.symm, hs.flag⟩
  by_cases hfree : v = ascii "free1" ∨ v = ascii "free2"
  · -- both names free the shared block
    have hcommand : sharedCommandOf found v = some .free := by
      simp [sharedCommandOf, halloc, hfree]
    have hbody : vulnDoubleFree found v s = s.freeHeld s.sharedPtr := by
      rcases hfree with rfl | rfl
      · rw [vulnDoubleFree, if_neg halloc, if_pos rfl]
      · rw [vulnDoubleFree, if_neg halloc, if_neg (by decide), if_pos rfl]
    rw [hcommand, hbody]
    simpa [Slot.Faults, Slot.Touches] using free_shared hs
  · -- any other value does nothing
    obtain ⟨hfree1, hfree2⟩ := not_or.mp hfree
    simp only [vulnDoubleFree, sharedCommandOf, halloc, hfree1, hfree2, or_self, if_false,
      succeeds_ok, Option.mem_def, reduceCtorEq, false_implies, implies_true, true_and,
      Except.ok.injEq, Option.elim_none]
    rintro s' rfl
    exact hs

end Commands

/-! ### One request -/

theorem succeeds_onHeader {value : Option (List UInt8)}
    {f : List UInt8 → Except PwnDefect (List UInt8)} {P : List UInt8 → Prop}
    (hf : ∀ v, Succeeds (f v) ↔ P v) : Succeeds (onHeader value f) ↔ ∀ v ∈ value, P v := by
  rcases value with _ | v
  · simp [onHeader]
  · simp [onHeader, hf]

section Request

variable {s s' : PwnState} {a b : Slot} (hs : s.Agrees a b) {r : RequestRec} {conf : PwnDirConfig}
include hs

/-- What a request does to the cache. -/
theorem cache_spec (hconf : r.servedBy = some conf) :
    (Succeeds (r.onCache s) ↔ ∀ c ∈ r.cacheCommand, ¬ a.Faults true c) ∧
    ∀ p, r.onCache s = .ok p → p.2.Agrees (r.cacheCommand.elim a a.next) b := by
  rw [RequestRec.onCache]
  rcases hv : r.headersIn "X-Pwn-UAF" with _ | v
  · have hcommand : r.cacheCommand = none := by simp [RequestRec.cacheCommand, hconf, hv]
    simp only [hcommand, succeeds_ok, Option.mem_def, reduceCtorEq, false_implies, implies_true,
      true_and, Except.ok.injEq, Option.elim_none]
    rintro p rfl
    exact hs
  · have hcommand : r.cacheCommand = cacheCommandOf r.cacheFound v := by
      simp [RequestRec.cacheCommand, hconf, hv]
    rw [hcommand]
    exact vulnUseAfterFree_spec hs

/-- What a request does to the shared block. -/
theorem shared_spec (hconf : r.servedBy = some conf) :
    (Succeeds (r.onShared s) ↔ ∀ c ∈ r.sharedCommand, ¬ b.Faults false c) ∧
    ∀ s', r.onShared s = .ok s' → s'.Agrees a (r.sharedCommand.elim b b.next) := by
  rw [RequestRec.onShared]
  rcases hv : r.headersIn "X-Pwn-Double" with _ | v
  · have hcommand : r.sharedCommand = none := by simp [RequestRec.sharedCommand, hconf, hv]
    simp only [hcommand, succeeds_ok, Option.mem_def, reduceCtorEq, false_implies, implies_true,
      true_and, Except.ok.injEq, Option.elim_none]
    rintro s' rfl
    exact hs
  · have hcommand : r.sharedCommand = sharedCommandOf r.sharedFound v := by
      simp [RequestRec.sharedCommand, hconf, hv]
    rw [hcommand]
    exact vulnDoubleFree_spec hs

/-- **When nothing goes wrong with one request.** -/
theorem succeeds_pwnHandler (hconf : r.servedBy = some conf) :
    Succeeds (pwnHandler r s) ↔ r.Tame conf ∧ (∀ c ∈ r.cacheCommand, ¬ a.Faults true c) ∧
      ∀ c ∈ r.sharedCommand, ¬ b.Faults false c := by
  -- the headers are handled one after the other, and then the URI
  have hparts : Succeeds (pwnHandler r s) ↔
      Succeeds (onHeader (r.headersIn "X-Pwn-Overflow") vulnStackOverflow) ∧
      Succeeds (onHeader (r.headersIn "X-Pwn-Heap") vulnHeapOverflow) ∧
      (∀ c ∈ r.cacheCommand, ¬ a.Faults true c) ∧
      Succeeds (onHeader (r.headersIn "X-Pwn-Null") (vulnNullDeref conf)) ∧
      Succeeds (onHeader (r.headersIn "X-Pwn-Integer") vulnIntegerOverflow) ∧
      Succeeds (onHeader (r.headersIn "X-Pwn-Format") vulnFormatString) ∧
      (∀ c ∈ r.sharedCommand, ¬ b.Faults false c) ∧
      Succeeds (onHeader r.uri fun uri => pwnUri uri r.args) := by
    obtain ⟨hcache, hafter⟩ := cache_spec hs hconf
    rw [pwnHandler, hconf, ← hcache]
    refine succeeds_bind fun _ _ => succeeds_bind fun _ _ => succeeds_bind fun p hp => ?_
    obtain ⟨hshared, -⟩ := shared_spec (hafter p hp) hconf
    rw [← hshared]
    refine succeeds_bind fun _ _ => succeeds_bind fun _ _ => succeeds_bind fun _ _ => ?_
    refine succeeds_bind fun _ _ => ?_
    rw [succeeds_bind (P := True)]
    · simp
    · simp
  rw [hparts, succeeds_onHeader succeeds_vulnStackOverflow,
    succeeds_onHeader succeeds_vulnHeapOverflow, succeeds_onHeader (succeeds_vulnNullDeref conf),
    succeeds_onHeader succeeds_vulnIntegerOverflow, succeeds_onHeader succeeds_vulnFormatString,
    succeeds_onHeader fun uri => succeeds_pwnUri uri r.args]
  constructor
  · rintro ⟨hoverflow, hheap, hcache, hnull, hinteger, hformat, hshared, huri⟩
    exact ⟨⟨hoverflow, hheap, hnull, hinteger, hformat, fun u hu => (huri u hu).1,
      fun u hu => (huri u hu).2⟩, hcache, hshared⟩
  · rintro ⟨htame, hcache, hshared⟩
    exact ⟨htame.overflow, htame.heap, hcache, htame.null, htame.integer, htame.format, hshared,
      fun u hu => ⟨htame.index u hu, htame.crash u hu⟩⟩

/-- **What the two variables hold after one request.** -/
theorem agrees_pwnHandler (hconf : r.servedBy = some conf) {reply : PwnReply}
    (h : pwnHandler r s = .ok (reply, s')) :
    s'.Agrees (r.cacheCommand.elim a a.next) (r.sharedCommand.elim b b.next) := by
  rw [pwnHandler, hconf] at h
  obtain ⟨_, _, h⟩ := bind_eq_ok.mp h
  obtain ⟨_, _, h⟩ := bind_eq_ok.mp h
  obtain ⟨p, hp, h⟩ := bind_eq_ok.mp h
  have hcache := (cache_spec hs hconf).2 p hp
  obtain ⟨_, _, h⟩ := bind_eq_ok.mp h
  obtain ⟨_, _, h⟩ := bind_eq_ok.mp h
  obtain ⟨_, _, h⟩ := bind_eq_ok.mp h
  obtain ⟨s₁, hs₁, h⟩ := bind_eq_ok.mp h
  have hshared := (shared_spec hcache hconf).2 s₁ hs₁
  obtain ⟨_, _, h⟩ := bind_eq_ok.mp h
  obtain ⟨-, rfl⟩ := Prod.mk.inj (Except.ok.inj h)
  exact hshared

end Request

/-! ### All requests -/

/-- A request that is declined changes nothing. -/
theorem pwnHandler_of_declined {r : RequestRec} (hconf : r.servedBy = none) (s : PwnState) :
    pwnHandler r s = .ok (.declined, s) := by
  rw [pwnHandler, hconf]

theorem commands_of_declined {r : RequestRec} (hconf : r.servedBy = none) :
    r.cacheCommand = none ∧ r.sharedCommand = none := by
  simp [RequestRec.cacheCommand, RequestRec.sharedCommand, hconf]

/-- The commands of a request and of those after it. -/
theorem safeFrom_filterMap_cons {f : RequestRec → Option SlotCommand} {frees : Bool} {a : Slot}
    {r : RequestRec} {rs : List RequestRec} :
    a.SafeFrom frees ((r :: rs).filterMap f) ↔
      (∀ c ∈ f r, ¬ a.Faults frees c) ∧
        ((f r).elim a a.next).SafeFrom frees (rs.filterMap f) := by
  rcases hc : f r with _ | c
  · simp [hc]
  · simp [hc, Slot.SafeFrom]

/-- **When nothing goes wrong with requests**, from a state whose variables are known. -/
theorem succeeds_pwnRun {s : PwnState} {a b : Slot} (hs : s.Agrees a b) (rs : List RequestRec) :
    Succeeds (pwnRun s rs) ↔
      (∀ r ∈ rs, ∀ conf ∈ r.servedBy, r.Tame conf) ∧
        a.SafeFrom true (rs.filterMap RequestRec.cacheCommand) ∧
        b.SafeFrom false (rs.filterMap RequestRec.sharedCommand) := by
  induction rs generalizing s a b with
  | nil => simp [pwnRun, Slot.SafeFrom]
  | cons r rs ih =>
    rw [safeFrom_filterMap_cons, safeFrom_filterMap_cons]
    rcases hconf : r.servedBy with _ | conf
    · -- a request that is declined does nothing
      obtain ⟨hcache, hshared⟩ := commands_of_declined hconf
      simp [pwnRun, pwnHandler_of_declined hconf, ih hs, hcache, hshared, hconf]
    · have hfirst := succeeds_pwnHandler hs hconf
      rcases hr : pwnHandler r s with defect | ⟨reply, s'⟩
      · -- the run ends here, and this request is at fault
        have hno : ¬ (r.Tame conf ∧ (∀ c ∈ r.cacheCommand, ¬ a.Faults true c) ∧
            ∀ c ∈ r.sharedCommand, ¬ b.Faults false c) := by
          rw [← hfirst, hr]
          exact not_succeeds_error defect
        simp only [pwnRun, hr, not_succeeds_error, false_iff]
        rintro ⟨htame, ⟨hcache, -⟩, hshared, -⟩
        exact hno ⟨htame r (List.mem_cons_self ..) conf hconf, hcache, hshared⟩
      · -- the run goes on from variables that are known again
        have hyes : r.Tame conf ∧ (∀ c ∈ r.cacheCommand, ¬ a.Faults true c) ∧
            ∀ c ∈ r.sharedCommand, ¬ b.Faults false c := by
          rw [← hfirst, hr]
          exact succeeds_ok _
        obtain ⟨htame, hcache, hshared⟩ := hyes
        simp only [pwnRun, hr, ih (agrees_pwnHandler hs hconf hr)]
        constructor
        · rintro ⟨hrest, hcaches, hshareds⟩
          refine ⟨List.forall_mem_cons.mpr ⟨?_, hrest⟩, ⟨hcache, hcaches⟩, hshared, hshareds⟩
          intro conf' hconf'
          obtain rfl : conf = conf' := Option.some.inj (hconf.symm.trans hconf')
          exact htame
        · rintro ⟨hrest, ⟨-, hcaches⟩, -, hshareds⟩
          exact ⟨(List.forall_mem_cons.mp hrest).2, hcaches, hshareds⟩

/-- The shared block is never used. -/
theorem use_not_mem_sharedCommand (r : RequestRec) : SlotCommand.use ∉ r.sharedCommand := by
  intro h
  rcases hconf : r.servedBy with _ | conf
  · simp [RequestRec.sharedCommand, hconf] at h
  · rcases hv : r.headersIn "X-Pwn-Double" with _ | v
    · simp [RequestRec.sharedCommand, hconf, hv] at h
    · have hcommand : r.sharedCommand = sharedCommandOf r.sharedFound v := by
        simp [RequestRec.sharedCommand, hconf, hv]
      rw [hcommand, sharedCommandOf] at h
      split_ifs at h
      all_goals simp at h

/-- **Of which requests nothing goes wrong**, in the order in which a process handles them and
whichever allocations find memory: those that are served are tame; no command reaches the cache
where it was freed since it was allocated; and no free reaches the shared block there. -/
theorem pwnRun_ok_iff (rs : List RequestRec) :
    (∃ s, pwnRun {} rs = .ok s) ↔
      (∀ r ∈ rs, ∀ conf ∈ r.servedBy, r.Tame conf) ∧
        (∀ pre c post, rs.filterMap RequestRec.cacheCommand = pre ++ c :: post →
          ¬ Slot.FreedSince pre) ∧
        ∀ pre post, rs.filterMap RequestRec.sharedCommand = pre ++ .free :: post →
          ¬ Slot.FreedSince pre := by
  have hrun := succeeds_pwnRun agrees_init rs
  rw [Slot.safeFrom_empty_iff, Slot.safeFrom_empty_iff] at hrun
  rw [← Succeeds.eq_def, hrun]
  refine and_congr_right fun _ => and_congr ?_ ?_
  · refine forall_congr' fun pre => forall_congr' fun c => forall_congr' fun post => ?_
    have htouches : Slot.Touches true c := by rcases c with _ | _ | _ <;> simp [Slot.Touches]
    simp [htouches]
  · constructor
    · intro h pre post heq
      exact h pre .free post heq trivial
    · intro h pre c post heq htouches
      have hmem : c ∈ rs.filterMap RequestRec.sharedCommand := by simp [heq]
      rcases c with found | _ | _
      · exact absurd htouches (by simp [Slot.Touches])
      · exact h pre post heq
      · obtain ⟨r, -, hr⟩ := List.mem_filterMap.mp hmem
        exact absurd hr (use_not_mem_sharedCommand r)

/-- A cache that is used after it was freed, in three requests. -/
example : pwnRun {} (["alloc", "free", "use"].map fun v =>
    { headersIn := fun key => if key = "X-Pwn-UAF" then some (ascii v) else none }) =
      .error (.memory .useAfterFree) := by
  decide

end Apatchy
