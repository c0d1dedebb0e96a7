import Mathlib.Data.List.Induction
import CoreMesh.Sql.Words

/-!
# What a text may be followed by

A text that ends outside comments and constants may be followed by white space, semicolons or a word
after a blank: they are tokens of their own. A text that ends inside one takes what follows it in.
-/

namespace Sql

/-- Whether a token of the kind takes in what follows it. -/
def Kind.isOpen : Kind → Bool
  | .lineComment | .unterminated => true
  | _ => false

/-- The tokens that are not white space. -/
def shown (tokens : List Token) : List Token := tokens.filter fun t => t.kind != .space

/-- White space apart, the last token is a line comment or unterminated. -/
def endsOpen (tokens : List Token) : Bool := (shown tokens).getLast?.any fun t => t.kind.isOpen

/-- White space or a semicolon. -/
def isSeparator (d : Dialect) (c : Char) : Bool := d.isSpace c || c == ';'

def separator (c : Char) : Token := if c = ';' then ⟨.symbol, [c]⟩ else ⟨.space, [c]⟩

@[simp] theorem live_append (left right : List Token) :
    live (left ++ right) = live left ++ live right := List.filter_append left right

@[simp] theorem shown_append (left right : List Token) :
    shown (left ++ right) = shown left ++ shown right := List.filter_append left right

theorem live_spaces (text : List Char) : live (spaces text) = [] := by
  simp [live, spaces, Token.isTrivia]

theorem live_gapTokens (literal : List Char) (between : List Trivia) :
    live (gapTokens literal between) = [⟨.string, literal⟩] := by
  have htrivia : live (between.map Trivia.token) = [] := by
    rw [live, List.filter_eq_nil_iff]
    intro t ht
    obtain ⟨trivia, -, rfl⟩ := List.mem_map.mp ht
    cases trivia <;> simp [Trivia.token, Token.isTrivia]
  show ⟨.string, literal⟩ :: live (between.map Trivia.token) = _
  rw [htrivia]

theorem shown_spaces (text : List Char) : shown (spaces text) = [] := by
  simp [shown, spaces]

theorem endsOpen_append_spaces (tokens : List Token) (text : List Char) :
    endsOpen (tokens ++ spaces text) = endsOpen tokens := by
  simp [endsOpen, shown_spaces]

section

variable {d : Dialect}

theorem not_semicolon_of_space {c : Char} (hspace : d.isSpace c = true) : c ≠ ';' := by
  intro heq
  rw [heq, d.visible ';' (by decide) (by decide)] at hspace
  cases hspace

theorem separator_of_space {c : Char} (hspace : d.isSpace c = true) : separator c = ⟨.space, [c]⟩ :=
  if_neg (not_semicolon_of_space hspace)

theorem map_separator_of_space {text : List Char} (hspace : ∀ c ∈ text, d.isSpace c = true) :
    text.map separator = spaces text :=
  List.map_congr_left fun c hc => separator_of_space (hspace c hc)

/-- A separator is no other visible character, so the scanner has no rule for it but `begin`. -/
theorem separator_ne {c x : Char} (hsep : isSeparator d c = true)
    (hx : 33 ≤ x.toNat ∧ x.toNat ≤ 126 ∧ x ≠ ';') : c ≠ x := by
  intro heq
  rw [heq, isSeparator, d.visible x hx.1 hx.2.1] at hsep
  simp [hx.2.2] at hsep

theorem wordChar_separator {c : Char} (hsep : isSeparator d c = true) : wordChar d c = false := by
  unfold isSeparator at hsep
  rcases (Bool.or_eq_true _ _).mp hsep with hspace | hsemi
  · cases hword : wordChar d c with
    | false => rfl
    | true => rw [not_space_of_word hword] at hspace; cases hspace
  · rw [eq_of_beq hsemi]
    exact wordChar_of_ascii (by decide) (by decide) (by decide) (by decide)

theorem operatorChar_separator {c : Char} (hsep : isSeparator d c = true) :
    isOperatorChar c = false := by
  have hall : ∀ x ∈ "~!@#^&|`?+-*/%<>=".toList, 33 ≤ x.toNat ∧ x.toNat ≤ 126 ∧ x ≠ ';' :=
    forall_mem_of_all (by decide)
  cases hop : isOperatorChar c with
  | false => rfl
  | true =>
      have hmem : c ∈ "~!@#^&|`?+-*/%<>=".toList := by simpa [isOperatorChar] using hop
      exact absurd rfl (separator_ne hsep (hall c hmem))

theorem begin_separator {c : Char} (hsep : isSeparator d c = true) :
    begin d c = ([separator c], .start) := by
  have hstart := identStart_of_not_wordChar (wordChar_separator hsep)
  have hdigit : c.isDigit = false := by
    have hword := wordChar_separator hsep
    simp [wordChar] at hword
    simpa using hword.2
  unfold begin
  by_cases hspace : d.isSpace c = true
  · rw [if_pos hspace, separator_of_space hspace]
  · have hsemi : c = ';' := by simpa [isSeparator, hspace] using hsep
    rw [if_neg hspace, if_neg (by simp [hstart]), if_neg (by simp [hdigit]),
      if_neg (by simp [hsemi]), if_neg (by simp [hsemi]), if_neg (by simp [hsemi]),
      if_neg (by simp [operatorChar_separator hsep]), separator, if_pos hsemi]

theorem finish_separator {c : Char} (hsep : isSeparator d c = true) (state : State) :
    finish d state c = (state.close ++ [separator c], .start) := by
  rw [finish, begin_separator hsep]

theorem feedIdent_separator {c : Char} (hsep : isSeparator d c = true) (text : List Char) :
    feedIdent d text c = finish d (.ident text) c := by
  have hquote : c ≠ '\'' := separator_ne hsep (by decide)
  have hdollar : c ≠ '$' := separator_ne hsep (by decide)
  have hamp : c ≠ '&' := separator_ne hsep (by decide)
  simp [feedIdent, identCont, wordChar_separator hsep, hquote, hdollar, hamp]

theorem feedOperator_separator {c : Char} (hsep : isSeparator d c = true) (init : List Char)
    (last : Char) : feedOperator d init last c = finish d (.operator init last) c := by
  have hminus : c ≠ '-' := separator_ne hsep (by decide)
  have hstar : c ≠ '*' := separator_ne hsep (by decide)
  simp [feedOperator, operatorChar_separator hsep, hminus, hstar]

/-- No token is pending but a string constant that may go on. -/
def State.isBetween : State → Bool
  | .start | .gap _ _ _ _ => true
  | _ => false

theorem State.isOpen_of_isBetween {state : State} (hbetween : state.isBetween = true) :
    state.isOpen = false := by
  cases state <;> first | rfl | cases hbetween

theorem feedGap_separator {c : Char} (hsep : isSeparator d c = true) (escapes newline : Bool)
    (literal : List Char) (between : List Trivia) :
    total (feedGap d escapes newline literal between c) = gapTokens literal between ++ [separator c] ∧
      (feedGap d escapes newline literal between c).2.isBetween = true := by
  have hminus : c ≠ '-' := separator_ne hsep (by decide)
  unfold feedGap
  rw [if_neg hminus]
  split
  · rename_i hspace
    rw [separator_of_space hspace]
    exact ⟨gapTokens_concat _ _ _, rfl⟩
  · rw [finish_separator hsep]
    exact ⟨List.append_nil _, rfl⟩

/-- Outside comments and constants a separator is a token of its own. -/
theorem feed_separator {state : State} {c : Char} (hclosed : state.isOpen = false)
    (hsep : isSeparator d c = true) :
    total (feed d state c) = state.close ++ [separator c] ∧ (feed d state c).2.isBetween = true := by
  have hword := wordChar_separator hsep
  have hfinish := finish_separator hsep
  have hident := identStart_of_not_wordChar hword
  have hdigit : c.isDigit = false := by
    rw [wordChar, hident, Bool.false_or] at hword
    exact hword
  have hquote : c ≠ '\'' := separator_ne hsep (by decide)
  have hdouble : c ≠ '"' := separator_ne hsep (by decide)
  have hdollar : c ≠ '$' := separator_ne hsep (by decide)
  cases state with
  | start => simp [feed, begin_separator hsep, total, State.close, State.isBetween]
  | ident text => simp [feed, feedIdent_separator hsep, hfinish, total, State.close, State.isBetween]
  | number text =>
      have hdot : c ≠ '.' := separator_ne hsep (by decide)
      have hplus : c ≠ '+' := separator_ne hsep (by decide)
      have hminus : c ≠ '-' := separator_ne hsep (by decide)
      simp [feed, feedNumber, hword, hdot, hplus, hminus, hfinish, total, State.close, State.isBetween]
  | param text => simp [feed, hword, hfinish, total, State.close, State.isBetween]
  | operator init last =>
      simp [feed, feedOperator_separator hsep, hfinish, total, State.close, State.isBetween]
  | quotedIdentEnd unicode text =>
      simp [feed, hdouble, hfinish, total, State.close, State.isBetween]
  | stringEnd escapes text =>
      simp only [feed, if_neg hquote]
      exact feedGap_separator hsep escapes false text []
  | gap escapes newline literal between =>
      simp only [feed, hquote, false_and, if_false]
      exact feedGap_separator hsep escapes newline literal between
  | gapMinus escapes literal between =>
      have hminus : c ≠ '-' := separator_ne hsep (by decide)
      simp [feed, hminus, feedOperator_separator hsep, hfinish, total, State.close, State.isBetween]
  | uAmp u =>
      simp [feed, hquote, hdouble, feedOperator_separator hsep, hfinish, total, State.close,
        State.isBetween]
  | dollar => simp [feed, hdollar, hident, hdigit, hfinish, total, State.close, State.isBetween]
  | dollarTag tag =>
      simp [feed, hdollar, hword, feedIdent_separator hsep, hfinish, total, State.close,
        State.isBetween]
  | lineComment text => cases hclosed
  | blockComment depth before text => cases hclosed
  | quotedIdent unicode text => cases hclosed
  | string escapes text => cases hclosed
  | backslash text => cases hclosed
  | gapComment escapes literal between text => cases hclosed
  | dollarBody delimiter text => cases hclosed

theorem lexFrom_separators {state : State} {text : List Char} (hclosed : state.isOpen = false)
    (hsep : ∀ c ∈ text, isSeparator d c = true) :
    lexFrom d state text = state.close ++ text.map separator := by
  induction text generalizing state with
  | nil => simp [lexFrom]
  | cons c rest ih =>
      obtain ⟨htotal, hnext⟩ := feed_separator hclosed (hsep c List.mem_cons_self)
      have hrest : ∀ x ∈ rest, isSeparator d x = true := fun x hx => hsep x (List.mem_cons_of_mem _ hx)
      rw [lexFrom, ih (State.isOpen_of_isBetween hnext) hrest, ← List.append_assoc]
      show total (feed d state c) ++ _ = _
      rw [htotal, List.append_assoc]
      rfl

theorem lexFrom_between {state : State} {c : Char} (hbetween : state.isBetween = true)
    (hword : wordChar d c = true) (rest : List Char) :
    lexFrom d state (c :: rest) = state.close ++ lexFrom d .start (c :: rest) := by
  have hspace := not_space_of_word hword
  have hquote : c ≠ '\'' := word_ne hword (by decide)
  cases state with
  | start => rfl
  | gap escapes newline literal between =>
      have hminus : c ≠ '-' := word_ne hword (by decide)
      simp [lexFrom, feed, feedGap, hspace, hquote, hminus, finish]
  | _ => cases hbetween

/-- A blank and a word after a text that ends outside comments and constants. -/
theorem lexFrom_blank_word {state : State} {c : Char} (hclosed : state.isOpen = false)
    (hword : wordChar d c = true) (rest : List Char) :
    lexFrom d state (' ' :: c :: rest)
      = state.close ++ ⟨.space, [' ']⟩ :: lexFrom d .start (c :: rest) := by
  have hsep : isSeparator d ' ' = true := by rw [isSeparator, d.blank, Bool.true_or]
  obtain ⟨htotal, hbetween⟩ := feed_separator hclosed hsep
  calc lexFrom d state (' ' :: c :: rest)
      = total (feed d state ' ') ++ lexFrom d .start (c :: rest) := by
        rw [lexFrom, lexFrom_between hbetween hword, total, List.append_assoc]
    _ = _ := by
        rw [htotal, separator_of_space d.blank, List.append_assoc, List.singleton_append]

/-! ### Open texts -/

/-- A character that no constant, quoted identifier or block comment treats by itself. -/
def isPlain (c : Char) : Bool := !("*/\"'\\$".toList.contains c)

theorem isPlain_of_separator {c : Char} (hsep : isSeparator d c = true) : isPlain c = true := by
  have hall : ∀ x ∈ "*/\"'\\$".toList, 33 ≤ x.toNat ∧ x.toNat ≤ 126 ∧ x ≠ ';' :=
    forall_mem_of_all (by decide)
  cases hplain : isPlain c with
  | true => rfl
  | false =>
      have hmem : c ∈ "*/\"'\\$".toList := by
        simpa only [isPlain, Bool.not_eq_eq_eq_not, Bool.not_false, List.contains_iff_mem] using hplain
      exact absurd rfl (separator_ne hsep (hall c hmem))

/-- The state is inside a comment that the character ends. -/
def State.endsLine (state : State) (c : Char) : Bool :=
  match state with
  | .lineComment _ | .gapComment _ _ _ _ => isNewline c
  | _ => false

theorem State.close_of_isOpen {state : State} (hopen : state.isOpen = true) :
    ∃ front kind text, state.close = front ++ [⟨kind, text⟩] ∧ kind.isOpen = true ∧
      (front = [] ∨ ∃ literal between, front = gapTokens literal between) := by
  cases state with
  | lineComment text => exact ⟨[], .lineComment, text, rfl, rfl, .inl rfl⟩
  | blockComment depth before text => exact ⟨[], .unterminated, text, rfl, rfl, .inl rfl⟩
  | quotedIdent unicode text => exact ⟨[], .unterminated, text, rfl, rfl, .inl rfl⟩
  | string escapes text => exact ⟨[], .unterminated, text, rfl, rfl, .inl rfl⟩
  | backslash text => exact ⟨[], .unterminated, text, rfl, rfl, .inl rfl⟩
  | gapComment escapes literal between text =>
      exact ⟨gapTokens literal between, .lineComment, text, rfl, rfl, .inr ⟨literal, between, rfl⟩⟩
  | dollarBody delimiter text => exact ⟨[], .unterminated, text, rfl, rfl, .inl rfl⟩
  | _ => cases hopen

/-- An open token takes in a plain character, unless it is a comment and the line ends. -/
theorem feed_plain {state : State} {c : Char} (hopen : state.isOpen = true)
    (hplain : isPlain c = true) (hline : state.endsLine c = false) :
    ∃ front kind text, state.close = front ++ [⟨kind, text⟩] ∧ kind.isOpen = true ∧
      (feed d state c).1 = [] ∧ (feed d state c).2.isOpen = true ∧
      (feed d state c).2.close = front ++ [⟨kind, text ++ [c]⟩] := by
  have hne : c ≠ '*' ∧ c ≠ '/' ∧ c ≠ '"' ∧ c ≠ '\'' ∧ c ≠ '\\' ∧ c ≠ '$' := by
    simpa [isPlain] using hplain
  obtain ⟨hstar, hslash, hdouble, hquote, hback, hdollar⟩ := hne
  cases state with
  | lineComment text =>
      have hnewline : isNewline c = false := hline
      exact ⟨[], .lineComment, text, rfl, rfl, by simp [feed, hnewline, State.close, State.isOpen]⟩
  | blockComment depth before text =>
      exact ⟨[], .unterminated, text, rfl, rfl, by
        simp [feed, feedBlockComment, hstar, hslash, State.close, State.isOpen]⟩
  | quotedIdent unicode text =>
      exact ⟨[], .unterminated, text, rfl, rfl, by simp [feed, hdouble, State.close, State.isOpen]⟩
  | string escapes text =>
      exact ⟨[], .unterminated, text, rfl, rfl, by
        simp [feed, hquote, hback, State.close, State.isOpen]⟩
  | backslash text => exact ⟨[], .unterminated, text, rfl, rfl, rfl, rfl, rfl⟩
  | gapComment escapes literal between text =>
      have hnewline : isNewline c = false := hline
      exact ⟨gapTokens literal between, .lineComment, text, rfl, rfl, by
        simp [feed, hnewline, State.close, State.isOpen]⟩
  | dollarBody delimiter text =>
      exact ⟨[], .unterminated, text, rfl, rfl, by
        simp [feed, feedDollarBody, hdollar, State.close, State.isOpen]⟩
  | _ => cases hopen

/-- An open token takes in every plain character of the line. -/
theorem lexFrom_plain {state : State} {front : List Token} {kind : Kind} {before text : List Char}
    (hopen : state.isOpen = true) (hclose : state.close = front ++ [⟨kind, before⟩])
    (hplain : ∀ c ∈ text, isPlain c = true ∧ isNewline c = false) :
    lexFrom d state text = front ++ [⟨kind, before ++ text⟩] := by
  induction text generalizing state before with
  | nil => rw [lexFrom, hclose, List.append_nil]
  | cons c rest ih =>
      obtain ⟨hc, hrest⟩ := List.forall_mem_cons.mp hplain
      have hline : state.endsLine c = false := by
        cases state <;> first | rfl | exact hc.2
      obtain ⟨front', kind', before', hclose', -, hdone, hnext, hclosed⟩ :=
        feed_plain (d := d) hopen hc.1 hline
      rw [hclose] at hclose'
      obtain ⟨rfl, hlast⟩ := List.append_inj' hclose' rfl
      obtain ⟨rfl, rfl⟩ := Token.mk.inj (List.singleton_inj.mp hlast)
      rw [lexFrom, hdone, List.nil_append, ih hnext hclosed hrest, List.append_assoc before [c] rest]
      rfl

/-- Of the separators after an open text, those on its line belong to its last token. -/
theorem lexFrom_open_separators {state : State} {text : List Char} (hopen : state.isOpen = true)
    (hsep : ∀ c ∈ text, isSeparator d c = true) :
    ∃ front kind before inside outside, state.close = front ++ [⟨kind, before⟩] ∧ kind.isOpen = true ∧
      text = inside ++ outside ∧
      lexFrom d state text = front ++ ⟨kind, before ++ inside⟩ :: outside.map separator ∧
      (kind ≠ .lineComment → outside = []) := by
  induction text generalizing state with
  | nil =>
      obtain ⟨front, kind, before, hclose, hkind, -⟩ := State.close_of_isOpen hopen
      exact ⟨front, kind, before, [], [], hclose, hkind, rfl, by simp [lexFrom, hclose], fun _ => rfl⟩
  | cons c rest ih =>
      obtain ⟨hc, hrest⟩ := List.forall_mem_cons.mp hsep
      cases hline : state.endsLine c with
      | true =>
          cases state with
          | lineComment text =>
              have hnewline : isNewline c = true := hline
              refine ⟨[], .lineComment, text, [], c :: rest, rfl, rfl, rfl, ?_, fun hne => absurd rfl hne⟩
              rw [lexFrom, feed, if_pos hnewline, finish_separator hc,
                lexFrom_separators (d := d) rfl hrest, List.append_nil]
              rfl
          | gapComment escapes literal between text =>
              have hnewline : isNewline c = true := hline
              refine ⟨gapTokens literal between, .lineComment, text, [], c :: rest, rfl, rfl, rfl, ?_,
                fun hne => absurd rfl hne⟩
              rw [lexFrom, feed, if_pos hnewline, lexFrom_separators (d := d) rfl hrest, List.map_cons,
                separator_of_space (isSpace_of_newline (d := d) hnewline)]
              simp [State.close, gapTokens, Trivia.token]
          | _ => cases hline
      | false =>
          obtain ⟨front, kind, before, hclose, hkind, hdone, hnext, hclosed⟩ :=
            feed_plain hopen (isPlain_of_separator hc) hline
          obtain ⟨front', kind', before', inside, outside, hclose', -, hsplit, hlex, hstays⟩ :=
            ih hnext hrest
          rw [hclosed] at hclose'
          obtain ⟨rfl, hlast⟩ := List.append_inj' hclose' rfl
          obtain ⟨rfl, rfl⟩ := Token.mk.inj (List.singleton_inj.mp hlast)
          refine ⟨front, kind, before, c :: inside, outside, hclose, hkind, ?_, ?_, hstays⟩
          · rw [hsplit, List.cons_append]
          · rw [lexFrom, hdone, List.nil_append, hlex, List.append_assoc before [c] inside]
            rfl

/-! ### Texts that end in a visible character -/

/-- A step that leaves nothing pending ends a token there, unless it read white space. -/
def Landed (d : Dialect) (c : Char) (step : List Token × State) : Prop :=
  step.2.isBetween = true → d.isSpace c = false →
    step.2 = .start ∧ ∃ init t, step.1 = init ++ [t] ∧ t.kind ≠ .space ∧ t.kind.isOpen = false

theorem landed_of_ne {c : Char} {step : List Token × State} (hne : step.2.isBetween ≠ true) :
    Landed d c step := fun hbetween => absurd hbetween hne

theorem landed_of_space {c : Char} {step : List Token × State} (hspace : d.isSpace c = true) :
    Landed d c step := by
  intro _ hvisible
  rw [hspace] at hvisible
  cases hvisible

theorem begin_landed (c : Char) : Landed d c (begin d c) := by
  intro hstart hspace
  unfold begin at hstart ⊢
  rw [if_neg (by simp [hspace])] at hstart ⊢
  split at hstart
  · cases hstart
  split at hstart
  · cases hstart
  split at hstart
  · cases hstart
  split at hstart
  · cases hstart
  split at hstart
  · cases hstart
  split at hstart
  · cases hstart
  · refine ⟨?_, [], ⟨.symbol, [c]⟩, ?_, by simp, rfl⟩
    · simp only [*, if_false]
      rfl
    · simp only [*, if_false, List.nil_append]
      rfl

theorem landed_prefix {c : Char} {step : List Token × State} (before : List Token)
    (hstep : Landed d c step) : Landed d c (before ++ step.1, step.2) := by
  intro hbetween hspace
  obtain ⟨hstart, init, t, hdone, ht⟩ := hstep hbetween hspace
  exact ⟨hstart, before ++ init, t, by rw [hdone, List.append_assoc], ht⟩

theorem finish_landed (state : State) (c : Char) : Landed d c (finish d state c) :=
  landed_prefix state.close (begin_landed c)

theorem feedIdent_landed (text : List Char) (c : Char) : Landed d c (feedIdent d text c) := by
  unfold feedIdent
  split
  · exact landed_of_ne (by simp [State.isBetween])
  split
  · exact landed_of_ne (by simp [State.isBetween])
  split
  · exact landed_of_ne (by simp [State.isBetween])
  split
  · exact landed_of_ne (by simp [State.isBetween])
  split
  · exact landed_of_ne (by simp [State.isBetween])
  · exact finish_landed _ c

theorem feedOperator_landed (init : List Char) (last c : Char) :
    Landed d c (feedOperator d init last c) := by
  unfold feedOperator
  split
  · exact landed_of_ne (by simp [State.isBetween])
  split
  · exact landed_of_ne (by simp [State.isBetween])
  split
  · exact landed_of_ne (by simp [State.isBetween])
  · exact finish_landed _ c

theorem feedGap_landed (escapes newline : Bool) (literal : List Char) (between : List Trivia) (c : Char) :
    Landed d c (feedGap d escapes newline literal between c) := by
  unfold feedGap
  split
  · rename_i hspace
    exact landed_of_space hspace
  split
  · exact landed_of_ne (by simp [State.isBetween])
  · exact finish_landed _ c

theorem feed_landed (state : State) (c : Char) : Landed d c (feed d state c) := by
  cases state with
  | start => exact begin_landed c
  | lineComment text =>
      simp only [feed]
      split
      · exact finish_landed _ c
      · exact landed_of_ne (by simp [State.isBetween])
  | blockComment depth before text =>
      simp only [feed, feedBlockComment]
      split
      · split
        · exact fun _ _ => ⟨rfl, [], ⟨.blockComment, text ++ [c]⟩, rfl, by simp, rfl⟩
        · exact landed_of_ne (by simp [State.isBetween])
      split
      · exact landed_of_ne (by simp [State.isBetween])
      · exact landed_of_ne (by simp [State.isBetween])
  | ident text => exact feedIdent_landed text c
  | number text =>
      simp only [feed, feedNumber]
      split
      · exact landed_of_ne (by simp [State.isBetween])
      split
      · exact landed_of_ne (by simp [State.isBetween])
      split
      · exact landed_of_ne (by simp [State.isBetween])
      · exact finish_landed _ c
  | param text =>
      simp only [feed]
      split
      · exact landed_of_ne (by simp [State.isBetween])
      · exact finish_landed _ c
  | operator init last => exact feedOperator_landed init last c
  | quotedIdent unicode text =>
      simp only [feed]
      split <;> exact landed_of_ne (by simp [State.isBetween])
  | quotedIdentEnd unicode text =>
      simp only [feed]
      split
      · exact landed_of_ne (by simp [State.isBetween])
      · exact finish_landed _ c
  | string escapes text =>
      simp only [feed]
      split
      · exact landed_of_ne (by simp [State.isBetween])
      split <;> exact landed_of_ne (by simp [State.isBetween])
  | backslash text => exact landed_of_ne (by simp [feed, State.isBetween])
  | stringEnd escapes text =>
      simp only [feed]
      split
      · exact landed_of_ne (by simp [State.isBetween])
      · exact feedGap_landed escapes false text [] c
  | gap escapes newline literal between =>
      simp only [feed]
      split
      · exact landed_of_ne (by simp [State.isBetween])
      · exact feedGap_landed escapes newline literal between c
  | gapMinus escapes literal between =>
      simp only [feed]
      split
      · exact landed_of_ne (by simp [State.isBetween])
      · exact landed_prefix (gapTokens literal between) (feedOperator_landed [] '-' c)
  | gapComment escapes literal between text =>
      simp only [feed]
      split
      · rename_i hnewline
        exact landed_of_space (isSpace_of_newline hnewline)
      · exact landed_of_ne (by simp [State.isBetween])
  | uAmp u =>
      simp only [feed]
      split
      · exact landed_of_ne (by simp [State.isBetween])
      split
      · exact landed_of_ne (by simp [State.isBetween])
      · exact landed_prefix [⟨.ident, [u]⟩] (feedOperator_landed [] '&' c)
  | dollar =>
      simp only [feed]
      split
      · exact landed_of_ne (by simp [State.isBetween])
      split
      · exact landed_of_ne (by simp [State.isBetween])
      split
      · exact landed_of_ne (by simp [State.isBetween])
      · exact finish_landed _ c
  | dollarTag tag =>
      simp only [feed]
      split
      · exact landed_of_ne (by simp [State.isBetween])
      split
      · exact landed_of_ne (by simp [State.isBetween])
      · exact landed_prefix [⟨.symbol, ['$']⟩] (feedIdent_landed tag c)
  | dollarBody delimiter text =>
      simp only [feed, feedDollarBody]
      split
      · exact fun _ _ => ⟨rfl, [], ⟨.string, text ++ [c]⟩, rfl, by simp, rfl⟩
      · exact landed_of_ne (by simp [State.isBetween])

theorem State.close_last {state : State} (hpending : state.isBetween = false) :
    ∃ init t, state.close = init ++ [t] ∧ t.kind ≠ .space ∧ t.kind.isOpen = state.isOpen := by
  cases state with
  | start => cases hpending
  | gap escapes newline literal between => cases hpending
  | gapMinus escapes literal between =>
      exact ⟨gapTokens literal between, ⟨.operator, ['-']⟩, rfl, by simp, rfl⟩
  | gapComment escapes literal between text =>
      exact ⟨gapTokens literal between, ⟨.lineComment, text⟩, rfl, by simp, rfl⟩
  | uAmp u => exact ⟨[⟨.ident, [u]⟩], ⟨.operator, ['&']⟩, rfl, by simp, rfl⟩
  | dollarTag tag => exact ⟨[⟨.symbol, ['$']⟩], ⟨.ident, tag⟩, rfl, by simp, rfl⟩
  | quotedIdentEnd unicode text =>
      exact ⟨[], ⟨if unicode then .unicodeIdent else .quotedIdent, text⟩, rfl, by
        cases unicode <;> simp, by cases unicode <;> rfl⟩
  | _ => exact ⟨[], _, rfl, by simp, rfl⟩

theorem endsOpen_last (before : List Token) {t : Token} (ht : t.kind ≠ .space) (after : List Char) :
    endsOpen (before ++ t :: spaces after) = t.kind.isOpen := by
  have htail : shown (t :: spaces after) = [t] := by
    have hcons : shown (t :: spaces after) = t :: shown (spaces after) :=
      List.filter_cons_of_pos (by simpa using ht)
    rw [hcons, shown_spaces]
  simp [endsOpen, htail]

/-- Whether what follows a visible character is taken in can be read off the last token. -/
theorem endsOpen_lex_concat (text : List Char) {c : Char} (hvisible : d.isSpace c = false) :
    endsOpen (lex d (text ++ [c])) = (scan d .start (text ++ [c])).2.isOpen := by
  have hlex : lex d (text ++ [c]) = _ := lexFrom_eq_scan .start (text ++ [c])
  rw [hlex, scan_concat, List.append_assoc]
  have hlanded := feed_landed (d := d) (scan d .start text).2 c
  generalize feed d (scan d .start text).2 c = step at *
  cases hbetween : step.2.isBetween with
  | true =>
      obtain ⟨hstart, init, t, hdone, hkind, hopen⟩ := hlanded hbetween hvisible
      rw [hdone, hstart, State.close, List.append_nil, ← List.append_assoc]
      have hlast := endsOpen_last ((scan d .start text).1 ++ init) hkind []
      rw [hopen] at hlast
      exact hlast
  | false =>
      obtain ⟨init, t, hclose, hkind, hopen⟩ := State.close_last hbetween
      have hlast := endsOpen_last ((scan d .start text).1 ++ (step.1 ++ init)) hkind []
      rw [hclose, ← hopen, ← hlast, List.append_assoc, List.append_assoc]
      rfl

/-- The tokens of a text with white space after it tell whether it ends in an open token. -/
theorem endsOpen_lex_spaces {text blank : List Char}
    (hlast : ∀ c, text.getLast? = some c → d.isSpace c = false)
    (hblank : ∀ c ∈ blank, d.isSpace c = true) :
    endsOpen (lex d (text ++ blank)) = (scan d .start text).2.isOpen := by
  have hsep : ∀ c ∈ blank, isSeparator d c = true := by
    intro c hc
    rw [isSeparator, hblank c hc, Bool.true_or]
  rw [lex_append]
  cases hopen : (scan d .start text).2.isOpen with
  | true =>
      obtain ⟨front, kind, before, inside, outside, -, hkind, hsplit, hlex, -⟩ :=
        lexFrom_open_separators hopen hsep
      have houtside : outside.map separator = spaces outside :=
        map_separator_of_space (d := d) fun c hc => hblank c (by rw [hsplit]; exact List.mem_append_right _ hc)
      have hvisible : kind ≠ .space := by
        intro heq
        rw [heq] at hkind
        cases hkind
      rw [hlex, houtside, ← List.append_assoc, endsOpen_last _ hvisible, hkind]
  | false =>
      have htext : lex d text = _ := lexFrom_eq_scan .start text
      rw [lexFrom_separators hopen hsep, map_separator_of_space hblank, ← List.append_assoc, ← htext,
        endsOpen_append_spaces]
      rcases List.eq_nil_or_concat text with rfl | ⟨init, last, rfl⟩
      · rfl
      · rw [List.concat_eq_append] at hlast hopen ⊢
        rw [endsOpen_lex_concat _ (hlast last (by simp)), hopen]

/-! ### Numbers -/

theorem lexFrom_number {before word : List Char} (hword : ∀ c ∈ word, wordChar d c = true) :
    lexFrom d (.number before) word = [⟨.number, before ++ word⟩] := by
  induction word generalizing before with
  | nil => rw [List.append_nil]; rfl
  | cons c word ih =>
      obtain ⟨hc, hrest⟩ := List.forall_mem_cons.mp hword
      have hfeed : feed d (.number before) c = ([], .number (before ++ [c])) := if_pos hc
      rw [lexFrom, hfeed, List.nil_append, ih hrest, List.append_assoc]
      rfl

theorem not_identStart_of_digit {c : Char} (hdigit : c.isDigit = true) : identStart d c = false := by
  obtain ⟨hlow, hhigh⟩ := Char.isDigit_iff_toNat.mp hdigit
  have hlow' : 48 ≤ c.toNat := hlow
  have hhigh' : c.toNat ≤ 57 := hhigh
  have halpha : c.isAlpha = false := by
    rw [Bool.eq_false_iff, ne_eq, isAlpha_iff_toNat]
    omega
  have hunderscore : c ≠ '_' := by
    rintro rfl
    exact absurd hhigh' (by decide)
  have hascii : ¬ 128 ≤ c.toNat := by omega
  simp [identStart, halpha, hunderscore, hascii]

theorem lex_digits {digits : List Char} (hne : digits ≠ [])
    (hdigits : ∀ c ∈ digits, c.isDigit = true) : lex d digits = [⟨.number, digits⟩] := by
  cases digits with
  | nil => exact absurd rfl hne
  | cons c rest =>
      obtain ⟨hc, hrest⟩ := List.forall_mem_cons.mp hdigits
      have hbegin : begin d c = ([], .number [c]) := by
        simp [begin, not_space_of_digit hc, not_identStart_of_digit hc, hc]
      rw [lex, lexFrom, feed, hbegin, List.nil_append, lexFrom_number]
      · rfl
      · intro x hx
        rw [wordChar, hrest x hx, Bool.or_true]

end

end Sql
