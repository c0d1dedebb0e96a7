import Mathlib.Tactic.Common

/-!
# URLs

The parts of `net/url` and `net/http/httputil` that rewrite a request's URL for an upstream. A Go
string is a sequence of bytes, and here each of its bytes is one character.
-/

namespace CoreMesh.Http

structure URL where
  scheme : String := ""
  host : String := ""
  path : String := ""
  /-- `RawPath`: an encoding of `path` other than the default one, or empty. -/
  rawPath : String := ""
  rawQuery : String := ""
  deriving DecidableEq, Repr

/-- `shouldEscape` in the mode `encodePath`. -/
def shouldEscape (c : Char) : Bool :=
  !(c.isAlphanum || "-_.~$&+,/:;=@".toList.contains c)

def upperhex : List Char := "0123456789ABCDEF".toList

/-- `escape` in the mode `encodePath`. -/
def escape (s : String) : String :=
  String.ofList (s.toList.flatMap fun c =>
    if shouldEscape c then
      ['%', upperhex.getD (c.toNat / 16) '0', upperhex.getD (c.toNat % 16) '0']
    else [c])

def unhex (c : Char) : Option Nat :=
  if c.isDigit then some (c.toNat - 48)
  else if c.toLower.toNat - 97 < 6 ∧ c.isAlpha then some (c.toLower.toNat - 87)
  else none

def unescapeChars : List Char → Option (List Char)
  | [] => some []
  | '%' :: high :: low :: rest => do
      let byte := 16 * (← unhex high) + (← unhex low)
      return Char.ofNat byte :: (← unescapeChars rest)
  | '%' :: _ => none
  | c :: rest => do return c :: (← unescapeChars rest)

/-- `unescape` in the mode `encodePath`. -/
def unescape (s : String) : Option String :=
  (unescapeChars s.toList).map String.ofList

/-- `validEncoded` in the mode `encodePath`. -/
def validEncoded (s : String) : Bool :=
  s.toList.all fun c => "!$&'()*+,;=:@[]%".toList.contains c || !shouldEscape c

def URL.escapedPath (u : URL) : String :=
  if u.rawPath ≠ "" ∧ validEncoded u.rawPath ∧ unescape u.rawPath = some u.path then u.rawPath
  else if u.path = "*" then "*"
  else escape u.path

def hasPrefixSlash (s : String) : Bool := s.toList.head? == some '/'

def hasSuffixSlash (s : String) : Bool := s.toList.getLast? == some '/'

/-- The slice `s[1:]`. -/
def dropFirst (s : String) : String := String.ofList (s.toList.drop 1)

def singleJoiningSlash (a b : String) : String :=
  if hasSuffixSlash a && hasPrefixSlash b then a ++ dropFirst b
  else if !hasSuffixSlash a && !hasPrefixSlash b then a ++ "/" ++ b
  else a ++ b

/-- The path and the raw path of `b` below `a`. -/
def joinURLPath (a b : URL) : String × String :=
  if a.rawPath = "" ∧ b.rawPath = "" then (singleJoiningSlash a.path b.path, "")
  else
    let apath := a.escapedPath
    let bpath := b.escapedPath
    if hasSuffixSlash apath && hasPrefixSlash bpath then
      (a.path ++ dropFirst b.path, apath ++ dropFirst bpath)
    else if !hasSuffixSlash apath && !hasPrefixSlash bpath then
      (a.path ++ "/" ++ b.path, apath ++ "/" ++ bpath)
    else (a.path ++ b.path, apath ++ bpath)

/-- The query of a request below a target's own. -/
def joinQuery (targetQuery rawQuery : String) : String :=
  if targetQuery = "" ∨ rawQuery = "" then targetQuery ++ rawQuery
  else targetQuery ++ "&" ++ rawQuery

def rewriteRequestURL (u target : URL) : URL where
  scheme := target.scheme
  host := target.host
  path := (joinURLPath target u).1
  rawPath := (joinURLPath target u).2
  rawQuery := joinQuery target.rawQuery u.rawQuery

end CoreMesh.Http
