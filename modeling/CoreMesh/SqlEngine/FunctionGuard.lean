import CoreMesh.SqlEngine.Sandbox

/-!
# Calls to blocked functions

PostgreSQL takes a name and a parenthesis for a call, whatever white space and comments are between
them, and reads the name from an identifier, a quoted identifier or one with Unicode escapes. The
sandbox looks for an unquoted name with at most white space before the parenthesis.
-/

namespace CoreMesh.SqlEngine

open Sql

/-- SQL as PostgreSQL reads it. -/
def postgres : Dialect where
  isSpace c := c == ' ' || (9 ≤ c.toNat && c.toNat ≤ 13)
  blank := by decide
  newline := by decide
  carriageReturn := by decide
  visible := by
    intro c hlow hhigh
    have hblank : c ≠ ' ' := by
      rintro rfl
      exact absurd hlow (by decide)
    simp [hblank]
    omega

/-! ### Names -/

/-- Letters outside ASCII keep their case. -/
def fold (text : List Char) : List Char := text.map Char.toLower

/-- Names longer than 63 bytes are cut off after their last character that fits. -/
def truncate : (room : Nat) → List Char → List Char
  | _, [] => []
  | room, c :: rest => if c.utf8Size ≤ room then c :: truncate (room - c.utf8Size) rest else []

def undouble : List Char → List Char
  | '"' :: '"' :: rest => '"' :: undouble rest
  | c :: rest => c :: undouble rest
  | [] => []

/-- What is between the quotes. -/
def unquote (text : List Char) : List Char := undouble (text.drop 1).dropLast

def hexValue (digits : List Char) : Option Nat :=
  digits.foldlM (fun value c =>
    if c.isDigit then some (16 * value + (c.toNat - '0'.toNat))
    else if 'a'.toNat ≤ c.toLower.toNat ∧ c.toLower.toNat ≤ 'f'.toNat then
      some (16 * value + (c.toLower.toNat - 'a'.toNat + 10))
    else none) 0

/-- The code of an escape sequence after its escape character, and what follows it. -/
def escapeCode (rest : List Char) : Option (Nat × List Char) :=
  let width := if rest.head? = some '+' then 6 else 4
  let digits := if rest.head? = some '+' then rest.drop 1 else rest
  if digits.length < width then none
  else (hexValue (digits.take width)).map fun code => (code, digits.drop width)

def isHighSurrogate (code : Nat) : Bool := 0xd800 ≤ code && code ≤ 0xdbff

def isLowSurrogate (code : Nat) : Bool := 0xdc00 ≤ code && code ≤ 0xdfff

/-- Unicode escapes undone; `high` is a surrogate whose other half must follow. -/
def unescape (escape : Char) : (fuel : Nat) → (high : Option Nat) → List Char → Option (List Char)
  | 0, _, _ => none
  | _, none, [] => some []
  | _, some _, [] => none
  | fuel + 1, high, c :: rest =>
      if c = escape ∧ rest.head? ≠ some escape then
        match escapeCode rest, high with
        | none, _ => none
        | some (code, after), some first =>
            if isLowSurrogate code then
              let code := 0x10000 + (first - 0xd800) * 0x400 + (code - 0xdc00)
              (unescape escape fuel none after).map (Char.ofNat code :: ·)
            else none
        | some (code, after), none =>
            if isHighSurrogate code then unescape escape fuel (some code) after
            else if isLowSurrogate code then none
            else (unescape escape fuel none after).map (Char.ofNat code :: ·)
      else if high.isSome then none
      else (unescape escape fuel none (if c = escape then rest.drop 1 else rest)).map (c :: ·)

/-- The name in `U&"…"`. -/
def unicodeName (escape : Char) (text : List Char) : Option (List Char) :=
  let body := unquote (text.drop 2)
  unescape escape (body.length + 1) none body

/-! ### Calls -/

/-- A name before a parenthesis. -/
structure Call where
  name : List Char
  /-- The name is spelled without quotes in letters, digits and underscores of ASCII, nothing was cut
  off it, and only white space is before the parenthesis. -/
  plain : Bool
  deriving DecidableEq, Repr

def parenthesis : Token := ⟨.symbol, ['(']⟩

def isPlainChar (c : Char) : Bool := c.isAlphanum || c == '_'

def isPlainName (text : List Char) : Bool :=
  text.all isPlainChar && !(text.head?.any Char.isDigit) && text.length ≤ 63

def opensAfter (skipped : Token → Bool) (rest : List Token) : Bool :=
  (rest.dropWhile skipped).head? == some parenthesis

/-- What follows a name in Unicode escapes: the escape character of a `UESCAPE` clause, if there is
one, and the rest. -/
def uescape (rest : List Token) : Char × List Token :=
  match rest.dropWhile Token.isTrivia with
  | ⟨.ident, word⟩ :: more =>
      match more.dropWhile Token.isTrivia with
      | ⟨.string, ['\'', escape, '\'']⟩ :: after =>
          if fold word = "uescape".toList then (escape, after) else ('\\', rest)
      | _ => ('\\', rest)
  | _ => ('\\', rest)

/-- The call that begins with the first token. -/
def callAt : List Token → Option Call
  | ⟨.ident, text⟩ :: rest =>
      if opensAfter Token.isTrivia rest then
        some ⟨truncate 63 (fold text), isPlainName text && opensAfter (·.kind == .space) rest⟩
      else none
  | ⟨.quotedIdent, text⟩ :: rest =>
      if opensAfter Token.isTrivia rest then some ⟨truncate 63 (unquote text), false⟩ else none
  | ⟨.unicodeIdent, text⟩ :: rest =>
      if opensAfter Token.isTrivia (uescape rest).2 then
        (unicodeName (uescape rest).1 text).map fun name => ⟨truncate 63 name, false⟩
      else none
  | _ => none

def calls : List Token → List Call
  | [] => []
  | t :: rest => (callAt (t :: rest)).toList ++ calls rest

def Call.Blocked (config : SQLSandboxConfig) (call : Call) : Prop :=
  String.ofList call.name ∈ config.blockedFunctions

instance (config : SQLSandboxConfig) (call : Call) : Decidable (call.Blocked config) :=
  inferInstanceAs (Decidable (_ ∈ _))

/-- The text calls no blocked function. -/
def CallsNoBlocked (config : SQLSandboxConfig) (sql : List Char) : Prop :=
  ∀ call ∈ calls (lex postgres (strip sql)), ¬ call.Blocked config

/-- The text spells no call to a blocked function otherwise than by its plain name. -/
def SpellsBlockedPlainly (config : SQLSandboxConfig) (sql : List Char) : Prop :=
  ∀ call ∈ calls (lex postgres (strip sql)), call.Blocked config → call.plain = true

/-! ### What the pattern finds -/

theorem dropWhile_append_of_last {p : Char → Bool} {front : List Char} {last : Char}
    (hlast : front.getLast? = some last) (hp : p last = false) (tail : List Char) :
    (front ++ tail).dropWhile p = front.dropWhile p ++ tail ∧
      (front.dropWhile p).getLast? = some last := by
  induction front with
  | nil => cases hlast
  | cons c rest ih =>
      by_cases hc : p c = true
      · cases rest with
        | nil =>
            have heq : c = last := by simpa using hlast
            rw [heq, hp] at hc
            cases hc
        | cons next more =>
            rw [List.cons_append, List.dropWhile_cons_of_pos hc, List.dropWhile_cons_of_pos hc]
            exact ih (by simpa using hlast)
      · rw [List.cons_append, List.dropWhile_cons_of_neg hc, List.dropWhile_cons_of_neg hc]
        exact ⟨rfl, hlast⟩

theorem nameStart_range {c : Char} (hstart : isNameStart c = true) :
    (65 ≤ c.toNat ∧ c.toNat ≤ 90) ∨ (97 ≤ c.toNat ∧ c.toNat ≤ 122) ∨ c.toNat = 0x5f ∨
      c.toNat = 0x130 ∨ c.toNat = 0x131 ∨ c.toNat = 0x17f ∨ c.toNat = 0x212a := by
  have hunderscore : c = '_' → c.toNat = 0x5f := by
    rintro rfl
    rfl
  simp only [isNameStart, isLetter, Bool.or_eq_true, isAlpha_iff_toNat, beq_iff_eq] at hstart
  grind

theorem initial_spec {c : Char} (hstart : isNameStart c = true) : isSpace c = false ∧ c ≠ '(' := by
  have hrange := nameStart_range hstart
  refine ⟨?_, ?_⟩
  · simp [isSpace]
    omega
  · rintro rfl
    exact absurd hstart (by decide)

theorem not_nameChar_of_space {c : Char} (hspace : isSpace c = true) : isNameChar c = false := by
  cases hchar : isNameChar c with
  | false => rfl
  | true =>
      rcases (Bool.or_eq_true _ _).mp hchar with hstart | hdigit
      · rw [(initial_spec hstart).1] at hspace
        cases hspace
      · have hnot : python.isSpace c = false := not_space_of_digit hdigit
        rw [show isSpace c = false from hnot] at hspace
        cases hspace

section Find

variable {unicodeWord : Char → Bool} {initial : Char} {name blank after : List Char}
  (hinitial : isNameStart initial = true) (hname : ∀ c ∈ name, isNameChar c = true)
  (hblank : ∀ c ∈ blank, isSpace c = true)

/-- A call as the pattern describes it, and the rest of the text. -/
abbrev callText (initial : Char) (name blank after : List Char) : List Char :=
  initial :: (name ++ (blank ++ '(' :: after))

include hinitial hname hblank in
theorem matchCall_callText :
    matchCall (callText initial name blank after) = some (initial :: name, after) := by
  have hparen : isSpace '(' = false := by decide
  have hstop : ∀ c rest, blank ++ '(' :: after = c :: rest → isNameChar c = false := by
    intro c rest heq
    cases blank with
    | nil =>
        obtain ⟨rfl, -⟩ := List.cons.inj heq
        decide
    | cons first more =>
        obtain ⟨rfl, -⟩ := List.cons.inj heq
        exact not_nameChar_of_space (hblank first List.mem_cons_self)
  have htail : (blank ++ '(' :: after).dropWhile isNameChar = blank ++ '(' :: after ∧
      (blank ++ '(' :: after).takeWhile isNameChar = [] := by
    cases hcons : blank ++ '(' :: after with
    | nil => exact ⟨rfl, rfl⟩
    | cons c rest =>
        have hc : ¬ isNameChar c = true := by simp [hstop c rest hcons]
        exact ⟨List.dropWhile_cons_of_neg hc, List.takeWhile_cons_of_neg hc⟩
  have hdrop : (blank ++ '(' :: after).dropWhile isSpace = '(' :: after := by
    rw [List.dropWhile_append_of_pos hblank, List.dropWhile_cons_of_neg (by simp [hparen])]
  rw [matchCall, if_pos hinitial, List.dropWhile_append_of_pos hname, htail.1, hdrop,
    List.takeWhile_append_of_pos hname, htail.2, List.append_nil]
  rfl

include hinitial in
/-- A match that begins earlier ends before the name: the name's own letters could only lengthen it. -/
theorem matchCall_front {front found later : List Char} (hne : front ≠ [])
    (hlast : ∀ c, front.getLast? = some c → isNameChar c = false)
    (hmatch : matchCall (front ++ callText initial name blank after) = some (found, later)) :
    ∃ front', later = front' ++ callText initial name blank after ∧ front' <:+ front ∧
      front'.length < front.length := by
  obtain ⟨c, rest, rfl⟩ := List.exists_cons_of_ne_nil hne
  obtain ⟨last, hgetLast⟩ : ∃ last, (c :: rest).getLast? = some last :=
    ⟨_, List.getLast?_eq_some_getLast hne⟩
  replace hlast := hlast last hgetLast
  rw [List.cons_append, matchCall] at hmatch
  by_cases hstart : isNameStart c = true
  · rw [if_pos hstart] at hmatch
    have hrest : rest.getLast? = some last := by
      cases rest with
      | nil =>
          have heq : c = last := by simpa using hgetLast
          rw [← heq, isNameChar, hstart] at hlast
          cases hlast
      | cons next more => simpa using hgetLast
    obtain ⟨hnames, hnameLast⟩ := dropWhile_append_of_last hrest hlast (callText initial name blank after)
    rw [hnames, List.dropWhile_append] at hmatch
    split at hmatch
    · rename_i paren tail hspaces
      split at hspaces
      · -- Only white space is left of what precedes, and the name's first letter is no parenthesis.
        rw [List.dropWhile_cons_of_neg (by simp [(initial_spec hinitial).1])] at hspaces
        exact absurd (List.cons.inj hspaces).1 (initial_spec hinitial).2
      · rename_i hkept
        cases hopen : (rest.dropWhile isNameChar).dropWhile isSpace with
        | nil => simp [hopen] at hkept
        | cons first front' =>
            rw [hopen] at hspaces
            obtain ⟨rfl, htail⟩ := List.cons.inj hspaces
            have hsuffix : '(' :: front' <:+ rest := by
              rw [← hopen]
              exact (List.dropWhile_suffix _).trans (List.dropWhile_suffix _)
            refine ⟨front', ?_, ?_, ?_⟩
            · have hlater := (Option.some.inj hmatch)
              rw [← (Prod.mk.inj hlater).2, ← htail]
              rfl
            · exact ((List.suffix_cons _ _).trans hsuffix).trans (List.suffix_cons _ _)
            · have hlength := hsuffix.length_le
              simp at hlength ⊢
              omega
    · cases hmatch
  · rw [if_neg hstart] at hmatch
    cases hmatch

include hinitial hname hblank in
theorem mem_findCalls {fuel : Nat} {previous : Option Char} {front : List Char}
    (hfuel : (front ++ callText initial name blank after).length ≤ fuel)
    (hlast : ∀ c, front.getLast? = some c → isNameChar c = false ∧ isWord unicodeWord c = false)
    (hprevious : front = [] → previous.any (isWord unicodeWord) = false) :
    initial :: name
      ∈ findCalls unicodeWord fuel previous (front ++ callText initial name blank after) := by
  induction fuel generalizing previous front with
  | zero => simp at hfuel
  | succ fuel ih =>
      cases front with
      | nil =>
          rw [List.nil_append, findCalls, if_neg (by simp [hprevious rfl]),
            matchCall_callText hinitial hname hblank]
          exact List.mem_cons_self
      | cons c rest =>
          have hskip : initial :: name ∈ findCalls unicodeWord fuel (some c)
              (rest ++ callText initial name blank after) := by
            refine ih (by simp at hfuel ⊢; omega) (fun x hx => hlast x ?_) fun hnil => ?_
            · cases rest with
              | nil => cases hx
              | cons next more => simpa using hx
            · subst hnil
              exact (hlast c rfl).2
          rw [List.cons_append, findCalls]
          split
          · exact hskip
          · split
            · rename_i found later hmatch
              obtain ⟨front', rfl, hsuffix, hshorter⟩ := matchCall_front hinitial (List.cons_ne_nil c rest)
                (fun x hx => (hlast x hx).1) hmatch
              refine List.mem_cons_of_mem _ (ih ?_ (fun x hx => hlast x ?_) fun _ => ?_)
              · simp at hfuel hshorter ⊢
                omega
              · obtain ⟨before, hbefore⟩ := hsuffix
                rw [← hbefore, List.getLast?_append, hx]
                rfl
              · rfl
            · exact hskip

end Find

/-! ### Plain calls -/

theorem mem_calls {tokens : List Token} {call : Call} (hcall : call ∈ calls tokens) :
    ∃ before t rest, tokens = before ++ t :: rest ∧ callAt (t :: rest) = some call := by
  induction tokens with
  | nil => cases hcall
  | cons t rest ih =>
      rcases List.mem_append.mp hcall with hfirst | hlater
      · exact ⟨[], t, rest, rfl, by simpa using hfirst⟩
      · obtain ⟨before, t', rest', hrest, hat⟩ := ih hlater
        exact ⟨t :: before, t', rest', by rw [hrest]; rfl, hat⟩

theorem callAt_plain {t : Token} {rest : List Token} {call : Call}
    (hat : callAt (t :: rest) = some call) (hplain : call.plain = true) :
    t.kind = .ident ∧ isPlainName t.text = true ∧ opensAfter (·.kind == .space) rest = true ∧
      call.name = truncate 63 (fold t.text) := by
  obtain ⟨kind, text⟩ := t
  unfold callAt at hat
  split at hat
  · rename_i heq
    obtain ⟨ht, rfl⟩ := List.cons.inj heq
    obtain ⟨rfl, rfl⟩ := Token.mk.inj ht
    split at hat
    · obtain rfl := (Option.some.inj hat).symm
      obtain ⟨hname, hopens⟩ := (Bool.and_eq_true _ _).mp hplain
      exact ⟨rfl, hname, hopens, rfl⟩
    · cases hat
  · split at hat
    · obtain rfl := (Option.some.inj hat).symm
      cases hplain
    · cases hat
  · split at hat
    · obtain ⟨name, -, rfl⟩ := Option.map_eq_some_iff.mp hat
      cases hplain
    · cases hat
  · cases hat

theorem opensAfter_spec {skipped : Token → Bool} {rest : List Token}
    (hopens : opensAfter skipped rest = true) :
    ∃ between after, rest = between ++ parenthesis :: after ∧ ∀ t ∈ between, skipped t = true := by
  cases hdrop : rest.dropWhile skipped with
  | nil => simp [opensAfter, hdrop] at hopens
  | cons first after =>
      have hfirst : first = parenthesis := by simpa [opensAfter, hdrop] using hopens
      refine ⟨rest.takeWhile skipped, after, ?_, fun t ht => List.mem_takeWhile_imp ht⟩
      rw [← hfirst, ← hdrop, List.takeWhile_append_dropWhile]

theorem space_range {c : Char} (hspace : postgres.isSpace c = true) :
    c.toNat = 32 ∨ (9 ≤ c.toNat ∧ c.toNat ≤ 13) := by
  have hrange : (c == ' ' || (9 ≤ c.toNat && c.toNat ≤ 13)) = true := hspace
  rcases (Bool.or_eq_true _ _).mp hrange with hblank | hcontrol
  · rw [eq_of_beq hblank]
    exact .inl rfl
  · simp at hcontrol
    exact .inr hcontrol

theorem isSpace_of_postgres {c : Char} (hspace : postgres.isSpace c = true) : isSpace c = true := by
  have hrange := space_range hspace
  simp [isSpace]
  omega

theorem not_wordChar_spec {c : Char} (hword : wordChar postgres c = false) :
    c.isAlpha = false ∧ c ≠ '_' ∧ c.toNat < 128 ∧ c.isDigit = false := by
  obtain ⟨hident, hdigit⟩ := Bool.or_eq_false_iff.mp hword
  rcases Bool.and_eq_false_iff.mp hident with hspace | hletter
  · have hspace : postgres.isSpace c = true := by simpa using hspace
    have hrange := space_range hspace
    have hname : isNameChar c = false := not_nameChar_of_space (isSpace_of_postgres hspace)
    have hstart : isNameStart c = false := (Bool.or_eq_false_iff.mp hname).1
    obtain ⟨hletter, hunderscore⟩ := Bool.or_eq_false_iff.mp hstart
    refine ⟨?_, by simpa using hunderscore, by omega, hdigit⟩
    simp only [isLetter, Bool.or_eq_false_iff] at hletter
    exact hletter.1.1.1.1
  · simp only [Bool.or_eq_false_iff, beq_eq_false_iff_ne, decide_eq_false_iff_not] at hletter
    exact ⟨hletter.1.1, hletter.1.2, by omega, hdigit⟩

/-- A character that can stand before an identifier belongs to no name and no word. -/
theorem not_name_of_not_word {c : Char} (hword : wordChar postgres c = false) (unicodeWord : Char → Bool) :
    isNameChar c = false ∧ isWord unicodeWord c = false := by
  obtain ⟨halpha, hunderscore, hascii, hdigit⟩ := not_wordChar_spec hword
  have hascii' : ¬ 128 ≤ c.toNat := by omega
  constructor
  · simp [isNameChar, isNameStart, isLetter, halpha, hunderscore, hdigit]
    omega
  · simp [isWord, Char.isAlphanum, halpha, hdigit, hunderscore, hascii']

theorem plainChar_range {c : Char} (hplain : isPlainChar c = true) :
    isNameChar c = true ∧ c.toNat < 123 := by
  rcases (Bool.or_eq_true _ _).mp hplain with halphanum | hunderscore
  · rcases (Bool.or_eq_true _ _).mp halphanum with halpha | hdigit
    · refine ⟨by simp [isNameChar, isNameStart, isLetter, halpha], ?_⟩
      have hletter := isAlpha_iff_toNat.mp halpha
      omega
    · obtain ⟨-, hhigh⟩ := Char.isDigit_iff_toNat.mp hdigit
      have hhigh' : c.toNat ≤ 57 := hhigh
      exact ⟨by simp [isNameChar, hdigit], by omega⟩
  · rw [eq_of_beq hunderscore]
    decide

theorem lowerChar_of_ascii {c : Char} (hascii : c.toNat < 123) :
    lowerChar c = [c.toLower] ∧ c.toLower.utf8Size = 1 := by
  constructor
  · have hdotted : (c.toNat == 0x130) = false := beq_false_of_ne (by omega)
    have hkelvin : (c.toNat == 0x212a) = false := beq_false_of_ne (by omega)
    rw [lowerChar, hdotted, hkelvin]
    rfl
  · have hall : ∀ n : Fin 123, (Char.ofNat n).toLower.utf8Size = 1 := by decide
    have hc := hall ⟨c.toNat, hascii⟩
    rwa [Char.ofNat_toNat] at hc

/-- Nothing is cut off a plain name, and the two ways to fold it agree. -/
theorem truncate_plain {text : List Char} (hascii : ∀ c ∈ text, c.toNat < 123) {room : Nat}
    (hroom : text.length ≤ room) : truncate room (fold text) = lower text := by
  induction text generalizing room with
  | nil => cases room <;> rfl
  | cons c rest ih =>
      obtain ⟨hc, hrest⟩ := List.forall_mem_cons.mp hascii
      obtain ⟨hlower, hsize⟩ := lowerChar_of_ascii hc
      rw [List.length_cons] at hroom
      show truncate room (c.toLower :: fold rest) = lowerChar c ++ lower rest
      rw [truncate, hsize, if_pos (by omega), ih hrest (by omega), hlower, List.singleton_append]

theorem plainName_spec {text : List Char} (hplain : isPlainName text = true) (hne : text ≠ []) :
    ∃ initial name, text = initial :: name ∧ isNameStart initial = true ∧
      (∀ c ∈ name, isNameChar c = true) ∧ truncate 63 (fold text) = lower text := by
  obtain ⟨hchars, hlength⟩ := (Bool.and_eq_true _ _).mp hplain
  obtain ⟨hchars, hdigit⟩ := (Bool.and_eq_true _ _).mp hchars
  have hchars := List.all_eq_true.mp hchars
  obtain ⟨initial, name, rfl⟩ := List.exists_cons_of_ne_nil hne
  refine ⟨initial, name, rfl, ?_, fun c hc => ?_, ?_⟩
  · have hinitial := (plainChar_range (hchars initial List.mem_cons_self)).1
    have hdigit : initial.isDigit = false := by simpa using hdigit
    simpa [isNameChar, hdigit] using hinitial
  · exact (plainChar_range (hchars c (List.mem_cons_of_mem _ hc))).1
  · exact truncate_plain (fun c hc => (plainChar_range (hchars c hc)).2) (by simpa using hlength)

/-- The pattern finds every plain call. -/
theorem findCalls_of_plain {text : List Char} {call : Call} (unicodeWord : Char → Bool)
    (hcall : call ∈ calls (lex postgres text)) (hplain : call.plain = true) :
    ∃ name ∈ findCalls unicodeWord text.length none text, lower name = call.name := by
  obtain ⟨before, t, rest, htokens, hat⟩ := mem_calls hcall
  obtain ⟨hident, hname, hopens, hcallName⟩ := callAt_plain hat hplain
  obtain ⟨between, after, rfl, hbetween⟩ := opensAfter_spec hopens
  have htext : concat before ++ (t.text ++ (concat between ++ '(' :: concat after)) = text := by
    have hconcat : concat (lex postgres text) = text := concat_lex text
    rw [htokens] at hconcat
    rw [← hconcat]
    simp [parenthesis]
  have hmem : t ∈ lex postgres text := by rw [htokens]; simp
  have hne : t.text ≠ [] := lex_nonempty text t hmem
  obtain ⟨initial, name, hspelled, hinitial, hchars, hlower⟩ := plainName_spec hname hne
  have hblank : ∀ c ∈ concat between, isSpace c = true := by
    intro c hc
    obtain ⟨space, hmem, hc⟩ := List.mem_flatMap.mp hc
    have htrue : space.SpaceTrue postgres := lex_spaceTrue text space (by rw [htokens]; simp [hmem])
    obtain ⟨x, hx, hspace⟩ := htrue (eq_of_beq (hbetween space hmem))
    rw [hx, List.mem_singleton] at hc
    rw [hc]
    exact isSpace_of_postgres hspace
  have hlast : ∀ c, (concat before).getLast? = some c →
      isNameChar c = false ∧ isWord unicodeWord c = false := fun c hc =>
    not_name_of_not_word (separated_lex text before t _ htokens hident c hc) unicodeWord
  refine ⟨initial :: name, ?_, ?_⟩
  · rw [hspelled] at htext
    have hfind : ∀ fuel, text.length ≤ fuel → initial :: name ∈ findCalls unicodeWord fuel none
        (concat before ++ callText initial name (concat between) (concat after)) := fun fuel hfuel =>
      mem_findCalls hinitial hchars hblank (by rw [← htext] at hfuel; exact hfuel) hlast fun _ => rfl
    have hfound := hfind text.length le_rfl
    rw [show concat before ++ callText initial name (concat between) (concat after) = text
      from htext] at hfound
    exact hfound
  · rw [hcallName, hlower, hspelled]

theorem not_blocked_of_accepted {unicodeWord : Char → Bool} {config : SQLSandboxConfig}
    {text name : List Char} (hnone : blockedFunction unicodeWord config text = none)
    (hname : name ∈ findCalls unicodeWord text.length none text) :
    String.ofList (lower name) ∉ config.blockedFunctions := by
  intro hblocked
  have hall := List.findSome?_eq_none_iff.mp hnone name hname
  rw [if_pos hblocked] at hall
  cases hall

/-- The statement that passed the checks is the whole text. -/
theorem textOf_accepted {parser : SqlParse} {sql : List Char} {statement : Statement}
    (hlossless : parser.Lossless (strip sql))
    (hstatement : (parser.parse (strip sql)).filter
      (fun statement => !(strip (textOf statement)).isEmpty) = [statement]) :
    textOf statement = strip sql := by
  have hall : (parser.parse (strip sql)).filter
      (fun statement => !(strip (textOf statement)).isEmpty) = parser.parse (strip sql) := by
    rw [List.filter_eq_self]
    intro st hst
    simpa using hlossless.nonblank st hst
  have hwhole := hlossless.whole
  rw [hall] at hstatement
  rw [hstatement, List.flatMap_singleton] at hwhole
  exact hwhole

/-- An accepted text calls no blocked function exactly if it spells no such call otherwise than by its
plain name. -/
theorem callsNoBlocked_iff (parser : SqlParse) (unicodeWord : Char → Bool) (config : SQLSandboxConfig)
    (sql : List Char) (accepted : SanitizedSQL) (hlossless : parser.Lossless (strip sql))
    (hok : sanitizeSql parser unicodeWord config sql = .ok accepted) :
    CallsNoBlocked config sql ↔ SpellsBlockedPlainly config sql := by
  constructor
  · intro hnone call hcall hblocked
    exact absurd hblocked (hnone call hcall)
  · intro hplainly call hcall hblocked
    obtain ⟨statement, hstatement, -, hfunctions, -⟩ := sanitizeSql_ok hok
    rw [textOf_accepted hlossless hstatement] at hfunctions
    obtain ⟨name, hname, hlower⟩ :=
      findCalls_of_plain unicodeWord hcall (hplainly call hcall hblocked)
    refine not_blocked_of_accepted hfunctions hname ?_
    rw [hlower]
    exact hblocked

theorem callsNoBlocked_iff_lower :
    CallsNoBlocked {} "SELECT lower(a) FROM t".toList ↔
      SpellsBlockedPlainly {} "SELECT lower(a) FROM t".toList :=
  callsNoBlocked_iff selectParse (fun _ => true) {} "SELECT lower(a) FROM t".toList
    ⟨"SELECT lower(a) FROM t LIMIT 1000".toList, true⟩
    ⟨selectParse_whole _, by decide +kernel⟩ (by decide +kernel)

theorem not_callsNoBlocked_of_quoted : sanitizeSql selectParse (fun _ => true) {}
      "SELECT \"pg_sleep\"(10)".toList = .ok ⟨"SELECT \"pg_sleep\"(10) LIMIT 1000".toList, true⟩ ∧
    ¬ CallsNoBlocked {} "SELECT \"pg_sleep\"(10)".toList := by
  refine ⟨by decide +kernel, fun hnone => ?_⟩
  exact hnone ⟨"pg_sleep".toList, false⟩ (by decide +kernel) (by decide +kernel)

end CoreMesh.SqlEngine
