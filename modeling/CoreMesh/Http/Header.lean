import Mathlib.Tactic.Common

/-!
# HTTP header maps

`net/http`'s `Header`: values by canonical key, in the order they were added. A key that is absent
has no values here, and a key mapped to a nil slice, which no server produces, is not told apart from
an absent one.
-/

namespace CoreMesh.Http

/-- The letters, digits and marks RFC 7230 allows in a header name. -/
def isTokenChar (c : Char) : Bool :=
  c.isAlphanum || "!#$%&'*+-.^_`|~".toList.contains c

/-- Upper case at the start and after each hyphen, lower case elsewhere. -/
def canonicalizeFrom : Bool → List Char → List Char
  | _, [] => []
  | upper, c :: rest => (if upper then c.toUpper else c.toLower) :: canonicalizeFrom (c == '-') rest

/-- `CanonicalMIMEHeaderKey`: a name that is no token is left alone. -/
def canonicalHeaderKey (key : String) : String :=
  if key.toList.all isTokenChar then String.ofList (canonicalizeFrom true key.toList) else key

def Header : Type := String → List String

namespace Header

def empty : Header := fun _ => []

def values (h : Header) (key : String) : List String := h (canonicalHeaderKey key)

/-- `Header.Get`: the first value, or the empty string. -/
def get (h : Header) (key : String) : String := (h.values key).headD ""

def set (h : Header) (key value : String) : Header :=
  fun k => if k = canonicalHeaderKey key then [value] else h k

def add (h : Header) (key value : String) : Header :=
  fun k => if k = canonicalHeaderKey key then h k ++ [value] else h k

def del (h : Header) (key : String) : Header :=
  fun k => if k = canonicalHeaderKey key then [] else h k

@[simp] theorem values_set_self (h : Header) (key value : String) :
    (h.set key value).values key = [value] := by
  simp [values, set]

theorem values_set_of_ne (h : Header) {key other : String} (value : String)
    (hne : canonicalHeaderKey other ≠ canonicalHeaderKey key) :
    (h.set key value).values other = h.values other := by
  simp [values, set, hne]

theorem values_ite_set_of_ne (h : Header) {p : Prop} [Decidable p] {key other : String} (value : String)
    (hne : canonicalHeaderKey other ≠ canonicalHeaderKey key) :
    (if p then h.set key value else h).values other = h.values other := by
  split
  · exact values_set_of_ne h value hne
  · rfl

@[simp] theorem get_set_self (h : Header) (key value : String) :
    (h.set key value).get key = value := by
  simp [get]

theorem get_set_of_ne (h : Header) {key other : String} (value : String)
    (hne : canonicalHeaderKey other ≠ canonicalHeaderKey key) :
    (h.set key value).get other = h.get other := by
  simp [get, values_set_of_ne h value hne]

theorem values_foldl_del (keys : List String) (h : Header) (key : String) :
    (keys.foldl del h).values key
      = if canonicalHeaderKey key ∈ keys.map canonicalHeaderKey then [] else h.values key := by
  induction keys generalizing h with
  | nil => simp
  | cons first rest ih =>
      simp only [List.foldl_cons, ih, List.map_cons, List.mem_cons]
      by_cases hrest : canonicalHeaderKey key ∈ rest.map canonicalHeaderKey
      · simp [hrest]
      · by_cases hfirst : canonicalHeaderKey key = canonicalHeaderKey first
        · simp [values, del, hfirst]
        · simp [values, del, hfirst, hrest]

end Header

/-! ### Lists of tokens in a header value -/

def isOWS (c : Char) : Bool := c == ' ' || c == '\t'

/-- The elements of a comma-separated header value, without the blanks around them. -/
def commaTokens (value : String) : List String :=
  (value.toList.splitOn ',').map fun part =>
    String.ofList ((part.dropWhile isOWS).reverse.dropWhile isOWS).reverse

def lowerASCII (s : String) : String := String.ofList (s.toList.map Char.toLower)

/-- `HeaderValuesContainsToken`. -/
def headerValuesContainsToken (values : List String) (token : String) : Bool :=
  values.any fun value => (commaTokens value).any fun t => lowerASCII t == lowerASCII token

end CoreMesh.Http
