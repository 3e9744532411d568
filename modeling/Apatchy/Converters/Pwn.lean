import Apatchy.Converters.HttpRequest

/-!
# Requests with a planted header

`ApplyPwn` adds one header to a serialised request, for the fuzzing of `mod_pwn`: its name and
its value are chosen by the strategy of the message and by an entry of a table
(`Apatchy.pwnHeader`). It finds the end of the headers by the first blank line
(`Apatchy.applyPwn`).

`Apatchy.applyPwn_buildHttpRequest`: on what `BuildHttpRequest` wrote for a request without
ambiguity, this adds that header behind the others and changes nothing else.

The strategies that are no case of the `switch` are looked up in a table of names by their
number, and that table is in another order than the enum: the use after free sends the header
of the integer overflow (`Apatchy.PwnStrategy.headerName`).
-/

namespace Apatchy

/-! ### The message -/

/-- The enum `PwnStrategy`, in the order of its numbers. -/
inductive PwnStrategy
  | pwnOverflow | pwnFormat | pwnInteger | pwnUaf | pwnNull | pwnDouble | pwnHeap
deriving DecidableEq, Repr

/-- The enum `FormatPayload`, in the order of its numbers. -/
inductive FormatPayload
  | fmtS | fmtX | fmtN | fmtP | fmtD | fmtSss | fmtXxxx | fmtNnn | fmt1S | fmt10X | fmt100N
  | fmt1000S | fmt10000X
deriving DecidableEq, Repr

/-- The enum `IntPayload`, in the order of its numbers. -/
inductive IntPayload
  | intZero | intOne | intNegOne | int127 | int128 | int255 | int256 | int32767 | int32768
  | int65535 | int65536 | intMax32 | intMax32Plus1 | intMin32 | intMin32Minus1 | intMaxU32
  | intMaxU32Plus1
deriving DecidableEq, Repr

/-- The message `PwnRequest`; an enum that is not set is its first value. -/
structure PwnRequest where
  /-- The request. -/
  http : HttpRequest
  /-- The strategy. -/
  strategy : PwnStrategy
  /-- Which format to send. -/
  formatPayload : Option FormatPayload := none
  /-- Which number to send. -/
  intPayload : Option IntPayload := none
  /-- How many bytes to send. -/
  overflowSizeIdx : Option UInt32 := none
  /-- Which byte to send. -/
  overflowChar : Option UInt32 := none

/-! ### The tables -/

/-- `format_strings`. -/
def formatStrings : List String :=
  ["%s", "%x", "%n", "%p", "%d", "%s%s%s", "%x%x%x%x", "%n%n%n", "%1$s", "%10$x", "%100$n",
    "%.1000s", "%.10000x"]

/-- `int_values`. -/
def intValues : List String :=
  ["0", "1", "-1", "127", "128", "255", "256", "32767", "32768", "65535", "65536", "2147483647",
    "2147483648", "-2147483648", "-2147483649", "4294967295", "4294967296"]

/-- `overflow_sizes`. -/
def overflowSizes : List ℕ := [16, 32, 64, 128, 256, 512, 1024, 2048, 4096]

/-- `pwn_header_names`. -/
def pwnHeaderNames : List String :=
  ["X-Pwn-Overflow", "X-Pwn-Heap", "X-Pwn-Format", "X-Pwn-Integer", "X-Pwn-UAF", "X-Pwn-Null",
    "X-Pwn-Double"]

/-! ### The converter -/

namespace PwnRequest

variable (pwn : PwnRequest)

/-- How many bytes the value of the overflow header has. -/
def overflowSize : ℕ := overflowSizes.getD ((pwn.overflowSizeIdx.getD 0).toNat % 9) 0

/-- Which byte it repeats. -/
def overflowByte : UInt8 := 65 + UInt8.ofNat ((pwn.overflowChar.getD 0).toNat % 26)

/-- The line of the header, without its end. -/
def headerText : List UInt8 :=
  match pwn.strategy with
  | .pwnOverflow => ascii "X-Pwn-Overflow: " ++ List.replicate pwn.overflowSize pwn.overflowByte
  | .pwnFormat =>
    ascii "X-Pwn-Format: " ++
      ascii (formatStrings.getD ((pwn.formatPayload.getD .fmtS).ctorIdx % 13) "")
  | .pwnInteger =>
    ascii "X-Pwn-Integer: " ++
      ascii (intValues.getD ((pwn.intPayload.getD .intZero).ctorIdx % 17) "")
  | strategy => ascii (pwnHeaderNames.getD (strategy.ctorIdx % 7) "") ++ ascii ": 1"

end PwnRequest

/-- **`ApplyPwn`.** -/
def applyPwn (pwn : PwnRequest) (request : List UInt8) : List UInt8 :=
  let header := pwn.headerText ++ crlf
  match find blankLine request with
  | none => request
  | some hend => insertAt (hend + 2) header request

/-! ### What it adds -/

/-- The name of the header that a strategy adds. -/
def PwnStrategy.headerName : PwnStrategy → String
  | .pwnOverflow => "X-Pwn-Overflow"
  | .pwnFormat => "X-Pwn-Format"
  | .pwnInteger => "X-Pwn-Integer"
  | strategy => pwnHeaderNames.getD strategy.ctorIdx ""

/-- The value of the header that is added. -/
def PwnRequest.headerValue (pwn : PwnRequest) : List UInt8 :=
  match pwn.strategy with
  | .pwnOverflow => List.replicate pwn.overflowSize pwn.overflowByte
  | .pwnFormat => ascii (formatStrings.getD (pwn.formatPayload.getD .fmtS).ctorIdx "")
  | .pwnInteger => ascii (intValues.getD (pwn.intPayload.getD .intZero).ctorIdx "")
  | _ => ascii "1"

/-- **The header that is added.** -/
def pwnHeader (pwn : PwnRequest) : Header where
  name := ascii pwn.strategy.headerName
  value := pwn.headerValue

theorem overflowByte_bounds (pwn : PwnRequest) :
    65 ≤ pwn.overflowByte.toNat ∧ pwn.overflowByte.toNat < 91 := by
  have hlt : (pwn.overflowChar.getD 0).toNat % 26 < 26 := Nat.mod_lt _ (by decide)
  rw [PwnRequest.overflowByte, UInt8.toNat_add, UInt8.toNat_ofNat']
  change 65 ≤ (65 + _ % 256) % 256 ∧ (65 + _ % 256) % 256 < 91
  omega

/-- What is written is the line of a header. -/
theorem headerText_eq (pwn : PwnRequest) : pwn.headerText = headerLine (pwnHeader pwn) := by
  have hformat : (pwn.formatPayload.getD .fmtS).ctorIdx % 13 =
      (pwn.formatPayload.getD .fmtS).ctorIdx := by
    cases pwn.formatPayload.getD .fmtS <;> rfl
  have hint : (pwn.intPayload.getD .intZero).ctorIdx % 17 =
      (pwn.intPayload.getD .intZero).ctorIdx := by
    cases pwn.intPayload.getD .intZero <;> rfl
  have hfields : ascii "X-Pwn-Overflow: " = ascii "X-Pwn-Overflow" ++ [colon, space] ∧
      ascii "X-Pwn-Format: " = ascii "X-Pwn-Format" ++ [colon, space] ∧
      ascii "X-Pwn-Integer: " = ascii "X-Pwn-Integer" ++ [colon, space] ∧
      ascii ": 1" = [colon, space] ++ ascii "1" := by decide
  obtain ⟨hoverflowField, hformatField, hintField, honeField⟩ := hfields
  rw [PwnRequest.headerText, headerLine, pwnHeader, PwnRequest.headerValue]
  rcases pwn.strategy with _ | _ | _ | _ | _ | _ | _
  · rw [hoverflowField]
    rfl
  · simp only [hformatField, hformat]
    rfl
  · simp only [hintField, hint]
    rfl
  all_goals
    simp only [honeField, ← List.append_assoc]
    rfl

/-- No control character is in an entry of a table. -/
theorem not_mem_getD {table : List String} {c : UInt8} (h : ∀ s ∈ table, c ∉ ascii s) (n : ℕ) :
    c ∉ ascii (table.getD n "") := by
  rw [List.getD_eq_getElem?_getD]
  rcases hn : table[n]? with _ | s
  · simp [ascii]
  · exact h s (List.mem_of_getElem? hn)

/-- A byte that is no capital letter and in no table is not in the value. -/
theorem not_mem_headerValue {c : UInt8} (hc : c.toNat < 65)
    (hformat : ∀ s ∈ formatStrings, c ∉ ascii s) (hint : ∀ s ∈ intValues, c ∉ ascii s)
    (hone : c ∉ ascii "1") (pwn : PwnRequest) : c ∉ pwn.headerValue := by
  rw [PwnRequest.headerValue]
  rcases pwn.strategy with _ | _ | _ | _ | _ | _ | _
  · intro hmem
    have hbyte := (List.mem_replicate.mp hmem).2
    have hbounds := overflowByte_bounds pwn
    rw [hbyte] at hc
    omega
  · exact not_mem_getD hformat _
  · exact not_mem_getD hint _
  all_goals exact hone

theorem headerName_mem (strategy : PwnStrategy) : strategy.headerName ∈ pwnHeaderNames := by
  cases strategy <;> decide

theorem pwnHeader_isLine (pwn : PwnRequest) : (pwnHeader pwn).IsLine where
  name_ne_nil := by
    have hnames : ∀ name ∈ pwnHeaderNames, ascii name ≠ [] := by decide
    exact hnames _ (headerName_mem pwn.strategy)
  colon := by
    have hnames : ∀ name ∈ pwnHeaderNames, Apatchy.colon ∉ ascii name := by decide
    exact hnames _ (headerName_mem pwn.strategy)
  name_cr := by
    have hnames : ∀ name ∈ pwnHeaderNames, 13 ∉ ascii name := by decide
    exact hnames _ (headerName_mem pwn.strategy)
  value_cr := not_mem_headerValue (by decide) (by decide) (by decide) (by decide) pwn

/-- **One header is added, and nothing else is changed**: what `ApplyPwn` makes of a serialised
request reads back as the request, with the header behind its own. -/
theorem applyPwn_buildHttpRequest (pwn : PwnRequest) (hreq : pwn.http.Clean) :
    parseRequest (applyPwn pwn (buildHttpRequest pwn.http)) =
      some { pwn.http.parsed with headers := pwn.http.parsed.headers ++ [pwnHeader pwn] } := by
  have hvalid := hreq.toInLines.message
  obtain ⟨i, hi, hlength⟩ := HttpMessage.find_bytes hvalid
  have hline : pwn.headerText ++ crlf = joinLines ([pwnHeader pwn].map headerLine) := by
    simp [headerText_eq]
  have hinserted : applyPwn pwn (buildHttpRequest pwn.http) =
      (pwn.http.message.extend [pwnHeader pwn] pwn.http.message.body).bytes := by
    rw [HttpRequest.buildHttpRequest_eq hreq.names]
    simp only [applyPwn, hi, hlength, hline, HttpMessage.insertAt_headers]
  have hextended : (pwn.http.message.extend [pwnHeader pwn] pwn.http.message.body).Valid := by
    refine hvalid.extend ?_ _
    intro h hh
    rw [List.mem_singleton.mp hh]
    exact pwnHeader_isLine pwn
  have huri : space ∉ absoluteUri pwn.http.uri :=
    HttpRequest.not_mem_absoluteUri (by decide) hreq.uri_space
  have hread := parseRequest_bytes (HttpRequest.toText_not_mem pwn.http.method (.inr rfl)) huri
    hextended
  rw [hinserted, HttpRequest.parsed, ← HttpRequest.ascii_toText, ← HttpRequest.absoluteUri_eq]
  exact hread

end Apatchy
