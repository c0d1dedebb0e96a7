import CoreMesh.Lib.Rewriting

/-!
# The redaction of prompts

`PromptRedactor`: what a credential is assigned, IPv6 addresses and the matches of the built-in patterns
are replaced one rule after another, and then the matches of the deployment's own patterns. What
`re.compile` makes of those is a parameter. To see what is left of a prompt, its characters can be
followed by their places.
-/

namespace CoreMesh.Tracing.PromptRedactor

open Regex Pattern Rewriting

abbrev Text := List Char

/-! ### Patterns -/

def digit : Pattern := .one .digit

/-- `[ .-]`. -/
def separator : Pattern := .one (oneOf (.char ' ') ".-")

/-- `(?i)\b(?:authorization\s*:\s*)?bearer\s+[a-z0-9._~+/=-]{8,}`. -/
def bearerToken : Pattern :=
  all [.boundary,
    optional (all [literalAnyCase "authorization", .star (.one .space), literal ":",
      .star (.one .space)]),
    literalAnyCase "bearer", atLeast (.one .space) 1,
    atLeast (.one (oneOf (.either (.letters 'a' 'z') (.range '0' '9')) "._~+/=-")) 8]

/-- `\b(?:sk|pk)-(?:proj-)?[A-Za-z0-9_-]{12,}\b`. -/
def apiKey : Pattern :=
  all [.boundary, any (literal "sk") [literal "pk"], literal "-", optional (literal "proj-"),
    atLeast (.one (oneOf (.either (.range 'A' 'Z') (.either (.range 'a' 'z') (.range '0' '9'))) "_-"))
      12,
    .boundary]

/-- `(?<!\w)\+[1-9]\d{9,14}(?!\w)`. -/
def internationalPhone : Pattern :=
  all [.notBehind .word, literal "+", .one (.range '1' '9'), between digit 9 14, .notAhead .word]

/-- `(?<!\w)(?:1[ .-]?)?\(?\d{3}\)?[ .-]?\d{3}[ .-]?\d{4}(?!\w)`. -/
def nationalPhone : Pattern :=
  all [.notBehind .word, optional (.seq (literal "1") (optional separator)), optional (literal "("),
    power digit 3, optional (literal ")"), optional separator, power digit 3, optional separator,
    power digit 4, .notAhead .word]

/-- `(?<!\d)(?:\d[ -]?){12,18}\d(?!\d)`. -/
def paymentCard : Pattern :=
  all [.notBehind .digit, between (.seq digit (optional (.one (oneOf (.char ' ') "-")))) 12 18, digit,
    .notAhead .digit]

/-- `(?<!\d)\d{3}[- ]\d{2}[- ]\d{4}(?!\d)`. -/
def socialSecurityNumber : Pattern :=
  all [.notBehind .digit, power digit 3, .one (oneOf (.char '-') " "), power digit 2,
    .one (oneOf (.char '-') " "), power digit 4, .notAhead .digit]

/-- `(?<!\d)\d{2}-\d{7}(?!\d)`. -/
def employerNumber : Pattern :=
  all [.notBehind .digit, power digit 2, literal "-", power digit 7, .notAhead .digit]

/-- `(?i)\b[A-Z0-9._%+-]+@[A-Z0-9.-]+\.[A-Z]{2,}\b`. -/
def emailAddress : Pattern :=
  all [.boundary, atLeast (.one (oneOf (.either (.letters 'a' 'z') (.range '0' '9')) "._%+-")) 1,
    literal "@", atLeast (.one (oneOf (.either (.letters 'a' 'z') (.range '0' '9')) ".-")) 1,
    literal ".", atLeast (.one (.letters 'a' 'z')) 2, .boundary]

/-- `(?:25[0-5]|2[0-4]\d|1?\d?\d)`. -/
def octet : Pattern :=
  any (.seq (literal "25") (.one (.range '0' '5')))
    [all [literal "2", .one (.range '0' '4'), digit],
      all [optional (literal "1"), optional digit, digit]]

/-- Four octets. -/
def dottedQuad : Pattern := .seq (power (.seq octet (literal ".")) 3) octet

def ipv4Address : Pattern := all [.boundary, dottedQuad, .boundary]

/-- `(?<!\w)(?:\+?\d{1,3}[ .-]?)?(?:\(?\d{3}\)?[ .-]?)\d{3}[ .-]\d{4}(?!\w)`. -/
def separatedPhone : Pattern :=
  all [.notBehind .word,
    optional (all [optional (literal "+"), between digit 1 3, optional separator]),
    all [optional (literal "("), power digit 3, optional (literal ")"), optional separator],
    power digit 3, separator, power digit 4, .notAhead .word]

/-- `_BUILT_INS`. -/
def builtIns : List (String × Pattern) :=
  [("CREDENTIAL", bearerToken), ("CREDENTIAL", apiKey), ("PHONE", internationalPhone),
    ("PHONE", nationalPhone), ("PAYMENT", paymentCard), ("GOVERNMENT_ID", socialSecurityNumber),
    ("GOVERNMENT_ID", employerNumber), ("EMAIL", emailAddress), ("IP_ADDRESS", ipv4Address),
    ("PHONE", separatedPhone)]

/-- `[-_ ]?`. -/
def keySeparator : Pattern := optional (.one (oneOf (.char '-') "_ "))

def credentialName : Pattern :=
  any (all [literalAnyCase "api", keySeparator, literalAnyCase "key"])
    [all [literalAnyCase "access", keySeparator, literalAnyCase "token"],
      all [literalAnyCase "client", keySeparator, literalAnyCase "secret"],
      literalAnyCase "password", literalAnyCase "passwd", literalAnyCase "secret"]

/-- `prefix` in `_CREDENTIAL_ASSIGNMENT`. -/
def credentialPrefix : Pattern :=
  all [any (all [literal "\"", credentialName, literal "\""])
      [all [literal "'", credentialName, literal "'"], all [.boundary, credentialName, .boundary]],
    .star (.one .space), .one (oneOf (.char ':') "="), .star (.one .space)]

/-- A text in quotes, with escapes. -/
def quoted (quote : String) : Pattern :=
  all [literal quote,
    .star (any (.seq (literal "\\") (.one (.other (.char '\n'))))
      [.one (.other (oneOf (.char '\r') (quote ++ "\\\n")))]),
    literal quote]

/-- `value` in `_CREDENTIAL_ASSIGNMENT`. -/
def credentialValue : Pattern :=
  any (quoted "\"") [quoted "'", atLeast (.one (.other (oneOf .space ",;\x7d]"))) 4]

/-- `[0-9a-z_:]`. -/
def addressNeighbour : CharClass := oneOf (.either (.letters 'a' 'z') (.range '0' '9')) "_:"

/-- `[0-9a-f]`. -/
def hexDigit : Pattern := .one (.either (.range '0' '9') (.letters 'a' 'f'))

/-- `(?:[0-9a-f]{0,4}:){2,7}`. -/
def hextets : Pattern := between (.seq (upTo hexDigit 4) (literal ":")) 2 7

/-- `_IPV6_CANDIDATE`. -/
def ipv6Candidate : Pattern :=
  all [.notBehind addressNeighbour, hextets, upTo hexDigit 4, .notAhead addressNeighbour]

/-- `_IPV4_EMBEDDED_IPV6_CANDIDATE`. -/
def embeddedIpv6Candidate : Pattern :=
  all [.notBehind addressNeighbour, hextets, dottedQuad, .notAhead addressNeighbour]

/-! ### Addresses -/

/-- An octet that `IPv4Address` accepts. -/
def acceptsOctet (text : Text) : Bool :=
  text ≠ [] && text.all asciiDecimal && text.length ≤ 3 && (text == ['0'] || text.head? ≠ some '0') &&
    text.foldl (fun n c => 10 * n + (c.toNat - 48)) 0 ≤ 255

def acceptsIpv4 (text : Text) : Bool :=
  (text.splitOn '.').length == 4 && (text.splitOn '.').all acceptsOctet

def acceptsHextet (text : Text) : Bool :=
  text ≠ [] && text.length ≤ 4 && text.all fun c =>
    asciiDecimal c || (97 ≤ c.toNat && c.toNat ≤ 102) || (65 ≤ c.toNat && c.toNat ≤ 70)

/-- The groups before and behind the one that is left out. -/
def acceptsShortened (before behind : List Text) : Bool :=
  let high := if before.head? == some [] then before.tail else before
  let low := if behind.getLast? == some [] then behind.dropLast else behind
  (before.head? ≠ some [] || high == []) && (behind.getLast? ≠ some [] || low == []) &&
    high.length + low.length ≤ 7 && high.all acceptsHextet && low.all acceptsHextet

def acceptsGroups (groups : List Text) : Bool :=
  if 9 < groups.length then false
  else
    match (List.range groups.length).filter fun i =>
        1 ≤ i && i + 1 < groups.length && groups[i]? == some [] with
    | [] => groups.length == 8 && groups.all acceptsHextet
    | [skipped] => acceptsShortened (groups.take skipped) (groups.drop (skipped + 1))
    | _ => false

/-- Whether `ipaddress.IPv6Address` accepts a text without a scope. The value is not needed, so that two
zeros can stand for an IPv4 address at the end. -/
def acceptsIpv6 (text : Text) : Bool :=
  let groups := text.splitOn ':'
  if groups.length < 3 then false
  else
    match groups.getLast? with
    | some last =>
        if last.contains '.' then acceptsIpv4 last && acceptsGroups (groups.dropLast ++ [['0'], ['0']])
        else acceptsGroups groups
    | none => false

/-! ### Rules -/

def markerOf (label : String) : Text := ("[REDACTED_" ++ label ++ "]").toList

/-- The fates of some characters that a marker is put in the place of. -/
def replaced (marker : Text) : Nat → List Fate
  | 0 => []
  | n + 1 => .marked marker :: List.replicate n .dropped

def replaceMatch (label : String) (matched : Text) : List Fate :=
  replaced (markerOf label) matched.length

/-- `_replace_ipv6`. A candidate that is not an address stays. -/
def replaceIpv6 (candidate : Text) : List Fate :=
  if acceptsIpv6 candidate then replaced (markerOf "IP_ADDRESS") candidate.length
  else List.replicate candidate.length .kept

/-- The pattern rules in their order, with what becomes of a match. -/
def patternRules : List (Pattern × (Text → List Fate)) :=
  (embeddedIpv6Candidate, replaceIpv6) :: (ipv6Candidate, replaceIpv6) ::
    builtIns.map fun (label, pattern) => (pattern, replaceMatch label)

/-- `_replace_credential_assignment`. -/
def credentialMarker (value : Text) : Text :=
  match value.head? with
  | some c =>
      if "\"'".toList.contains c then c :: (markerOf "CREDENTIAL" ++ [c]) else markerOf "CREDENTIAL"
  | none => markerOf "CREDENTIAL"

section Rules

variable (t : CharTable)

/-- The length of the match at a place. -/
def matchLength (pattern : Pattern) (s : Cursor) : Option Nat :=
  pattern.run t s fun stop => some (s.rest.length - stop.rest.length)

def patternRule (pattern : Pattern) (replace : Text → List Fate) : Rule := fun s =>
  (matchLength t pattern s).map fun length => replace (s.rest.take length)

def credentialAssignment : Rule := fun s =>
  (credentialPrefix.run t s fun start => credentialValue.run t start fun stop => some (start, stop)).map
    fun (start, stop) =>
      let value := start.rest.take (start.rest.length - stop.rest.length)
      List.replicate (s.rest.length - start.rest.length) .kept ++
        replaced (credentialMarker value) value.length

/-- The built-in rules in their order. -/
def rules : List Rule :=
  credentialAssignment t :: patternRules.map fun (pattern, replace) => patternRule t pattern replace

end Rules

/-! ### Redaction -/

/-- A pattern of the deployment, and where its matches are in a text. -/
structure Compiled where
  matchesEmpty : Bool
  spans : Text → List (Nat × Nat)

section Redaction

variable {α : Type} (char : α → Char) (fresh : Char → α)

/-- `sub` for matches that are known, from a place on. -/
def subSpans (marker : List α) : List (Nat × Nat) → Nat → List α → List α
  | [], _, text => text
  | (start, stop) :: spans, place, text =>
      text.take (start - place) ++ marker ++ subSpans marker spans stop (text.drop (stop - place))

/-- `PromptRedactor(custom_patterns).redact(prompt)`. -/
def redactBy (t : CharTable) (compile : String → Option Compiled) (customPatterns : List String)
    (prompt : List α) : List α :=
  let redacted := (rules t).foldl (fun text rule => rewrite char fresh rule text) prompt
  ((customPatterns.filterMap compile).filter fun pattern => !pattern.matchesEmpty).foldl
    (fun text pattern => subSpans ((markerOf "CUSTOM").map fresh) (pattern.spans (text.map char)) 0 text)
    redacted

end Redaction

def redact (t : CharTable) (compile : String → Option Compiled) (customPatterns : List String)
    (prompt : Text) : Text :=
  redactBy id id t compile customPatterns prompt

/-- A character with its place in the prompt, if it is from there. -/
abbrev Tracked := Char × Option Nat

def track (prompt : Text) : List Tracked := prompt.zipIdx.map fun (c, place) => (c, some place)

def redactTracked (t : CharTable) (compile : String → Option Compiled) (customPatterns : List String)
    (prompt : Text) : List Tracked :=
  redactBy Prod.fst (fun c => (c, none)) t compile customPatterns (track prompt)

end CoreMesh.Tracing.PromptRedactor
