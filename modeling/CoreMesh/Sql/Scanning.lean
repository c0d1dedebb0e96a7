import CoreMesh.Sql.Lexer

/-!
# What one character does

Reading a character lengthens the last token, begins a new one, joins what was pending into one token,
or takes the end of an operator for the start of a comment. Everything below about texts follows from
this by induction on the text.
-/

namespace Sql

/-! ### Texts of tokens -/

@[simp] theorem concat_nil : concat [] = [] := rfl

@[simp] theorem concat_append (left right : List Token) :
    concat (left ++ right) = concat left ++ concat right := List.flatMap_append

@[simp] theorem concat_cons (t : Token) (rest : List Token) :
    concat (t :: rest) = t.text ++ concat rest := List.flatMap_cons

theorem concat_headTokens (init : List Char) : concat (headTokens init) = init := by
  unfold headTokens
  split
  · rename_i hnil
    rw [hnil, concat_nil]
  · simp

theorem gapTokens_concat (literal : List Char) (between : List Trivia) (trivia : Trivia) :
    gapTokens literal (between ++ [trivia]) = gapTokens literal between ++ [trivia.token] :=
  congrArg (List.cons _) List.map_append

/-! ### One character -/

/-- The state is inside a token that a further letter or digit would lengthen. -/
def State.Inside : State → Prop
  | .ident _ | .number _ | .param _ | .lineComment _ | .blockComment _ _ _ | .quotedIdent _ _
  | .string _ _ | .backslash _ | .gapComment _ _ _ _ | .dollarTag _ | .dollarBody _ _ => True
  | _ => False

/-- The ways the tokens of a state become the tokens of the text with one more character. -/
inductive Grown (d : Dialect) (state : State) (c : Char) : List Token → List Token → Prop where
  | lengthen (before : List Token) (kind kind' : Kind) (text : List Char)
      (hkind : (kind' = kind ∧ kind ≠ .space) ∨
        (kind' ≠ .operator ∧ kind' ≠ .ident ∧ kind' ≠ .space)) :
      Grown d state c (before ++ [⟨kind, text⟩]) (before ++ [⟨kind', text ++ [c]⟩])
  | open (before : List Token) (kind : Kind)
      (hspace : kind = .space → d.isSpace c = true)
      (hident : kind = .ident → identStart d c = true ∧ ¬ state.Inside) :
      Grown d state c before (before ++ [⟨kind, [c]⟩])
  | join (before : List Token) (kind : Kind) (hkind : kind ≠ .operator ∧ kind ≠ .ident ∧ kind ≠ .space) :
      Grown d state c before [⟨kind, concat before ++ [c]⟩]
  | split (init : List Char) (last : Char) (kind : Kind) (hlast : last = '-' ∨ last = '/')
      (hkind : kind ≠ .operator ∧ kind ≠ .ident ∧ kind ≠ .space) :
      Grown d state c [⟨.operator, init ++ [last]⟩] (headTokens init ++ [⟨kind, [last, c]⟩])

/-- A step from one state may be one from another, if a further letter lengthens neither of them. -/
theorem Grown.of_not_inside {d : Dialect} {state state' : State} {c : Char} {before after : List Token}
    (hgrown : Grown d state c before after) (hinside : ¬ state'.Inside) : Grown d state' c before after := by
  cases hgrown with
  | lengthen before kind kind' text hkind => exact .lengthen before kind kind' text hkind
  | «open» before kind hspace hident =>
      exact .open before kind hspace fun hkind => ⟨(hident hkind).1, hinside⟩
  | join before kind hkind => exact .join before kind hkind
  | split init last kind hlast hkind => exact .split init last kind hlast hkind

/-- The tokens known after a step: those it completed and those it leaves pending. -/
def total (step : List Token × State) : List Token := step.1 ++ step.2.close

section Steps

variable {d : Dialect} {c : Char}

theorem begin_spec (d : Dialect) (c : Char) :
    ∃ kind, total (begin d c) = [⟨kind, [c]⟩] ∧ (kind = .space → d.isSpace c = true) ∧
      (kind = .ident → identStart d c = true) := by
  unfold begin
  split
  · rename_i hspace
    exact ⟨.space, rfl, fun _ => hspace, by simp⟩
  split
  · rename_i hident
    exact ⟨.ident, rfl, by simp, fun _ => hident⟩
  split
  · exact ⟨.number, rfl, by simp, by simp⟩
  split
  · exact ⟨.unterminated, rfl, by simp, by simp⟩
  split
  · exact ⟨.unterminated, rfl, by simp, by simp⟩
  split
  · rename_i hdollar
    exact ⟨.symbol, by rw [hdollar]; rfl, by simp, by simp⟩
  split
  · exact ⟨.operator, rfl, by simp, by simp⟩
  · exact ⟨.symbol, rfl, by simp, by simp⟩

/-- A character that does not belong to what was pending begins a token of its own. -/
theorem grown_of_begin {state : State} {before : List Token} {step : List Token × State}
    (hstep : total step = before ++ total (begin d c))
    (hinside : state.Inside → identStart d c = false) : Grown d state c before (total step) := by
  obtain ⟨kind, htotal, hspace, hident⟩ := begin_spec d c
  rw [hstep, htotal]
  refine .open _ _ hspace fun hkind => ⟨hident hkind, fun hin => ?_⟩
  have hstart := hident hkind
  rw [hinside hin] at hstart
  exact Bool.false_ne_true hstart

theorem total_finish (state : State) :
    total (finish d state c) = state.close ++ total (begin d c) := List.append_assoc _ _ _

theorem finish_grown {state : State} (hinside : state.Inside → identStart d c = false) :
    Grown d state c state.close (total (finish d state c)) :=
  grown_of_begin (total_finish state) hinside

theorem identStart_of_not_wordChar (hc : wordChar d c = false) : identStart d c = false := by
  unfold wordChar at hc
  simpa using (Bool.or_eq_false_iff.mp hc).1

theorem identStart_of_space (hc : d.isSpace c = true) : identStart d c = false := by
  simp [identStart, hc]

theorem isSpace_of_newline (hc : isNewline c = true) : d.isSpace c = true := by
  unfold isNewline at hc
  rcases (Bool.or_eq_true _ _).mp hc with h | h
  · rw [eq_of_beq h]
    exact d.newline
  · rw [eq_of_beq h]
    exact d.carriageReturn

theorem feedIdent_grown (text : List Char) :
    Grown d (.ident text) c [⟨.ident, text⟩] (total (feedIdent d text c)) := by
  unfold feedIdent
  split
  · exact .lengthen [] .ident .ident text (.inl ⟨rfl, by simp⟩)
  rename_i hcont
  split
  · exact .lengthen [] .ident .unterminated text (.inr (by simp))
  split
  · exact .lengthen [] .ident .unterminated text (.inr (by simp))
  split
  · rename_i hu
    rw [hu.1, hu.2]
    exact .open [⟨.ident, ['u']⟩] .operator (by simp) (by simp)
  split
  · rename_i hu
    rw [hu.1, hu.2]
    exact .open [⟨.ident, ['U']⟩] .operator (by simp) (by simp)
  · refine finish_grown fun _ => identStart_of_not_wordChar ?_
    rw [identCont, Bool.or_eq_true, not_or] at hcont
    simpa using hcont.1

theorem feedNumber_grown (text : List Char) :
    Grown d (.number text) c [⟨.number, text⟩] (total (feedNumber d text c)) := by
  unfold feedNumber
  split
  · exact .lengthen [] .number .number text (.inl ⟨rfl, by simp⟩)
  rename_i hword
  split
  · exact .lengthen [] .number .number text (.inl ⟨rfl, by simp⟩)
  split
  · exact .lengthen [] .number .number text (.inl ⟨rfl, by simp⟩)
  · exact finish_grown fun _ => identStart_of_not_wordChar (by simpa using hword)

theorem feedOperator_grown (init : List Char) (last : Char) :
    Grown d (.operator init last) c [⟨.operator, init ++ [last]⟩]
      (total (feedOperator d init last c)) := by
  unfold feedOperator
  split
  · rename_i hcomment
    exact .split init last .lineComment (.inl hcomment.1) (by simp)
  split
  · rename_i hcomment
    exact .split init last .unterminated (.inr hcomment.1) (by simp)
  split
  · exact .lengthen [] .operator .operator (init ++ [last]) (.inl ⟨rfl, by simp⟩)
  · exact finish_grown fun hin => hin.elim

theorem feedBlockComment_grown (depth : Nat) (before : Char) (text : List Char) :
    Grown d (.blockComment depth before text) c [⟨.unterminated, text⟩]
      (total (feedBlockComment depth before text c)) := by
  unfold feedBlockComment
  split
  · split
    · exact .lengthen [] .unterminated .blockComment text (.inr (by simp))
    · exact .lengthen [] .unterminated .unterminated text (.inl ⟨rfl, by simp⟩)
  split
  · exact .lengthen [] .unterminated .unterminated text (.inl ⟨rfl, by simp⟩)
  · exact .lengthen [] .unterminated .unterminated text (.inl ⟨rfl, by simp⟩)

theorem feedGap_grown (escapes newline : Bool) (literal : List Char) (between : List Trivia) :
    Grown d (.gap escapes newline literal between) c (gapTokens literal between)
      (total (feedGap d escapes newline literal between c)) := by
  unfold feedGap
  split
  · rename_i hspace
    show Grown _ _ _ _ (gapTokens literal (between ++ [.space c]))
    rw [gapTokens_concat]
    exact .open (gapTokens literal between) .space (fun _ => hspace) (by simp)
  split
  · rename_i hminus
    rw [hminus]
    exact .open (gapTokens literal between) .operator (by simp) (by simp)
  · exact finish_grown fun hin => hin.elim

/-- The minus of a gap is an operator, or the start of a comment. -/
theorem gapMinus_grown (escapes : Bool) (literal : List Char) (between : List Trivia) :
    Grown d (.gapMinus escapes literal between) c (State.gapMinus escapes literal between).close
      (total (feed d (.gapMinus escapes literal between) c)) := by
  simp only [feed]
  split
  · exact .lengthen (gapTokens literal between) .operator .lineComment ['-'] (.inr (by simp))
  rename_i hminus
  unfold feedOperator
  rw [if_neg (by simp [hminus]), if_neg (by simp)]
  split
  · show Grown _ _ _ _ (gapTokens literal between ++ [] ++ [⟨.operator, ['-', c]⟩])
    rw [List.append_nil]
    exact .lengthen (gapTokens literal between) .operator .operator ['-'] (.inl ⟨rfl, by simp⟩)
  · refine grown_of_begin ?_ fun hin => hin.elim
    simp [finish, total, State.close]

/-- The two readings of `U&` that no quote follows. -/
theorem uAmp_grown (u : Char) :
    Grown d (.uAmp u) c (State.uAmp u).close (total (feed d (.uAmp u) c)) := by
  simp only [feed]
  split
  · exact .join [⟨.ident, [u]⟩, ⟨.operator, ['&']⟩] .unterminated (by simp)
  split
  · exact .join [⟨.ident, [u]⟩, ⟨.operator, ['&']⟩] .unterminated (by simp)
  unfold feedOperator
  rw [if_neg (by simp), if_neg (by simp)]
  split
  · exact .lengthen [⟨.ident, [u]⟩] .operator .operator ['&'] (.inl ⟨rfl, by simp⟩)
  · refine grown_of_begin ?_ fun hin => hin.elim
    show ⟨.ident, [u]⟩ :: total (finish d (.operator [] '&') c) = _
    rw [total_finish]
    rfl

/-- A dollar sign that opens no quote is a character by itself, and the rest is an identifier. -/
theorem dollarTag_grown (tag : List Char) :
    Grown d (.dollarTag tag) c (State.dollarTag tag).close (total (feed d (.dollarTag tag) c)) := by
  simp only [feed]
  split
  · have htext : '$' :: tag ++ [c] = concat (State.dollarTag tag).close ++ [c] := by
      simp [concat, State.close]
    show Grown _ _ _ _ [⟨.unterminated, '$' :: tag ++ [c]⟩]
    rw [htext]
    exact .join _ .unterminated (by simp)
  rename_i hdollar
  split
  · exact .lengthen [⟨.symbol, ['$']⟩] .ident .ident tag (.inl ⟨rfl, by simp⟩)
  rename_i hword
  unfold feedIdent
  rw [if_neg (by simp [identCont, hword, hdollar])]
  split
  · exact .lengthen [⟨.symbol, ['$']⟩] .ident .unterminated tag (.inr (by simp))
  split
  · exact .lengthen [⟨.symbol, ['$']⟩] .ident .unterminated tag (.inr (by simp))
  split
  · rename_i hu
    rw [hu.1, hu.2]
    exact .open [⟨.symbol, ['$']⟩, ⟨.ident, ['u']⟩] .operator (by simp) (by simp)
  split
  · rename_i hu
    rw [hu.1, hu.2]
    exact .open [⟨.symbol, ['$']⟩, ⟨.ident, ['U']⟩] .operator (by simp) (by simp)
  · refine grown_of_begin ?_ fun _ => identStart_of_not_wordChar (by simpa using hword)
    show ⟨.symbol, ['$']⟩ :: total (finish d (.ident tag) c) = _
    rw [total_finish]
    rfl

/-- What a step can do to the tokens known so far. -/
theorem feed_grown (d : Dialect) (state : State) (c : Char) :
    Grown d state c state.close (total (feed d state c)) := by
  cases state with
  | start => exact grown_of_begin (List.nil_append _).symm fun hin => hin.elim
  | lineComment text =>
      simp only [feed]
      split
      · rename_i hnewline
        exact finish_grown fun _ => identStart_of_space (isSpace_of_newline hnewline)
      · exact .lengthen [] .lineComment .lineComment text (.inl ⟨rfl, by simp⟩)
  | blockComment depth before text => exact feedBlockComment_grown depth before text
  | ident text => exact feedIdent_grown text
  | number text => exact feedNumber_grown text
  | param text =>
      simp only [feed]
      split
      · exact .lengthen [] .param .param text (.inl ⟨rfl, by simp⟩)
      · rename_i hword
        exact finish_grown fun _ => identStart_of_not_wordChar (by simpa using hword)
  | operator init last => exact feedOperator_grown init last
  | quotedIdent unicode text =>
      simp only [feed]
      split
      · exact .lengthen [] .unterminated _ text (.inr (by cases unicode <;> simp))
      · exact .lengthen [] .unterminated .unterminated text (.inl ⟨rfl, by simp⟩)
  | quotedIdentEnd unicode text =>
      simp only [feed]
      split
      · exact .lengthen [] _ .unterminated text (.inr (by simp))
      · exact finish_grown fun hin => hin.elim
  | string escapes text =>
      simp only [feed]
      split
      · exact .lengthen [] .unterminated .string text (.inr (by simp))
      split
      · exact .lengthen [] .unterminated .unterminated text (.inl ⟨rfl, by simp⟩)
      · exact .lengthen [] .unterminated .unterminated text (.inl ⟨rfl, by simp⟩)
  | backslash text => exact .lengthen [] .unterminated .unterminated text (.inl ⟨rfl, by simp⟩)
  | stringEnd escapes text =>
      simp only [feed]
      split
      · exact .lengthen [] .string .unterminated text (.inr (by simp))
      · exact (feedGap_grown escapes false text []).of_not_inside id
  | gap escapes newline literal between =>
      simp only [feed]
      split
      · exact .join (gapTokens literal between) .unterminated (by simp)
      · exact feedGap_grown escapes newline literal between
  | gapMinus escapes literal between => exact gapMinus_grown escapes literal between
  | gapComment escapes literal between text =>
      simp only [feed]
      split
      · rename_i hnewline
        show Grown _ _ _ _ (gapTokens literal (between ++ [.lineComment text, .space c]))
        rw [List.append_cons, gapTokens_concat, gapTokens_concat]
        exact .open (gapTokens literal between ++ [⟨.lineComment, text⟩]) .space
          (fun _ => isSpace_of_newline hnewline) (by simp)
      · exact .lengthen (gapTokens literal between) .lineComment .lineComment text (.inl ⟨rfl, by simp⟩)
  | uAmp u => exact uAmp_grown u
  | dollar =>
      simp only [feed]
      split
      · exact .lengthen [] .symbol .unterminated ['$'] (.inr (by simp))
      split
      · rename_i hident
        exact .open [⟨.symbol, ['$']⟩] .ident (by simp) fun _ => ⟨hident, fun hin => hin.elim⟩
      split
      · exact .lengthen [] .symbol .param ['$'] (.inr (by simp))
      · exact finish_grown fun hin => hin.elim
  | dollarTag tag => exact dollarTag_grown tag
  | dollarBody delimiter text =>
      simp only [feed, feedDollarBody]
      split
      · exact .lengthen [] .unterminated .string text (.inr (by simp))
      · exact .lengthen [] .unterminated .unterminated text (.inl ⟨rfl, by simp⟩)

end Steps

/-! ### Texts -/

theorem Grown.concat_eq {d : Dialect} {state : State} {c : Char} {before after : List Token}
    (hgrown : Grown d state c before after) : concat after = concat before ++ [c] := by
  cases hgrown with
  | lengthen before kind kind' text hkind => simp
  | «open» before kind hspace hident => simp
  | join before kind hkind => simp
  | split init last kind hlast hkind => simp [concat_headTokens]

def Token.nonempty (t : Token) : Prop := t.text ≠ []

theorem Grown.nonempty {d : Dialect} {state : State} {c : Char} {before after : List Token}
    (hgrown : Grown d state c before after) (hbefore : ∀ t ∈ before, t.nonempty) :
    ∀ t ∈ after, t.nonempty := by
  cases hgrown with
  | lengthen before kind kind' text hkind =>
      intro t ht
      rcases List.mem_append.mp ht with hold | hlast
      · exact hbefore t (List.mem_append_left _ hold)
      · rw [List.mem_singleton.mp hlast]
        simp [Token.nonempty]
  | «open» before kind hspace hident =>
      intro t ht
      rcases List.mem_append.mp ht with hold | hlast
      · exact hbefore t hold
      · rw [List.mem_singleton.mp hlast]
        simp [Token.nonempty]
  | join before kind hkind =>
      intro t ht
      rw [List.mem_singleton.mp ht]
      simp [Token.nonempty]
  | split init last kind hlast hkind =>
      intro t ht
      rcases List.mem_append.mp ht with hhead | hlast
      · unfold headTokens at hhead
        split at hhead
        · cases hhead
        · rename_i hne
          rw [List.mem_singleton.mp hhead]
          exact hne
      · rw [List.mem_singleton.mp hlast]
        simp [Token.nonempty]

section Texts

variable {d : Dialect}

theorem concat_lexFrom (state : State) (text : List Char) :
    concat (lexFrom d state text) = concat state.close ++ text := by
  induction text generalizing state with
  | nil => simp [lexFrom]
  | cons c rest ih =>
      have hstep := (feed_grown d state c).concat_eq
      rw [total, concat_append] at hstep
      rw [lexFrom, concat_append, ih, ← List.append_assoc, hstep, List.append_assoc]
      rfl

/-- No character of a text is lost between its tokens. -/
theorem concat_lex (text : List Char) : concat (lex d text) = text := concat_lexFrom .start text

/-- What every step keeps of the tokens known holds of all tokens of a text. -/
theorem lexFrom_forall {P : Token → Prop}
    (hfeed : ∀ state c, (∀ t ∈ state.close, P t) → ∀ t ∈ total (feed d state c), P t)
    {state : State} (hstate : ∀ t ∈ state.close, P t) (text : List Char) :
    ∀ t ∈ lexFrom d state text, P t := by
  induction text generalizing state with
  | nil => exact hstate
  | cons c rest ih =>
      have hstep := hfeed state c hstate
      intro t ht
      rcases List.mem_append.mp ht with hdone | hrest
      · exact hstep t (List.mem_append_left _ hdone)
      · exact ih (fun t ht => hstep t (List.mem_append_right _ ht)) t hrest

/-- A token of white space is one character of it. -/
def Token.SpaceTrue (d : Dialect) (t : Token) : Prop :=
  t.kind = .space → ∃ c, t.text = [c] ∧ d.isSpace c = true

theorem Grown.spaceTrue {state : State} {c : Char} {before after : List Token}
    (hgrown : Grown d state c before after) (hbefore : ∀ t ∈ before, t.SpaceTrue d) :
    ∀ t ∈ after, t.SpaceTrue d := by
  cases hgrown with
  | lengthen before kind kind' text hkind =>
      intro t ht
      rcases List.mem_append.mp ht with hold | hlast
      · exact hbefore t (List.mem_append_left _ hold)
      · rw [List.mem_singleton.mp hlast]
        intro hspace
        rcases hkind with ⟨rfl, hne⟩ | ⟨-, -, hne⟩
        · exact absurd hspace hne
        · exact absurd hspace hne
  | «open» before kind hspace hident =>
      intro t ht
      rcases List.mem_append.mp ht with hold | hlast
      · exact hbefore t hold
      · rw [List.mem_singleton.mp hlast]
        exact fun hkind => ⟨c, rfl, hspace hkind⟩
  | join before kind hkind =>
      intro t ht hspace
      rw [List.mem_singleton.mp ht] at hspace
      exact absurd hspace hkind.2.2
  | split init last kind hlast hkind =>
      intro t ht hspace
      rcases List.mem_append.mp ht with hhead | hlast
      · unfold headTokens at hhead
        split at hhead
        · cases hhead
        · rw [List.mem_singleton.mp hhead] at hspace
          cases hspace
      · rw [List.mem_singleton.mp hlast] at hspace
        exact absurd hspace hkind.2.2

theorem lex_spaceTrue (text : List Char) : ∀ t ∈ lex d text, t.SpaceTrue d :=
  lexFrom_forall (fun state c => (feed_grown d state c).spaceTrue) (fun _ ht => by cases ht) text

theorem lex_nonempty (text : List Char) : ∀ t ∈ lex d text, t.nonempty :=
  lexFrom_forall (fun state c => (feed_grown d state c).nonempty) (fun _ ht => by cases ht) text

theorem lexFrom_append (state : State) (left right : List Char) :
    lexFrom d state (left ++ right)
      = (scan d state left).1 ++ lexFrom d (scan d state left).2 right := by
  induction left generalizing state with
  | nil => rfl
  | cons c rest ih =>
      show (feed d state c).1 ++ lexFrom d (feed d state c).2 (rest ++ right) = _
      rw [ih, ← List.append_assoc]
      rfl

theorem lexFrom_eq_scan (state : State) (text : List Char) :
    lexFrom d state text = (scan d state text).1 ++ (scan d state text).2.close := by
  have happend : lexFrom d state (text ++ []) = _ := lexFrom_append state text []
  rw [List.append_nil] at happend
  exact happend

/-- The tokens of a text continued are those completed by it and those that follow from its state. -/
theorem lex_append (left right : List Char) :
    lex d (left ++ right)
      = (scan d .start left).1 ++ lexFrom d (scan d .start left).2 right :=
  lexFrom_append .start left right

theorem eq_nil_of_concat_nil {tokens : List Token} (hne : ∀ t ∈ tokens, t.nonempty)
    (hnil : concat tokens = []) : tokens = [] := by
  match tokens with
  | [] => rfl
  | t :: rest =>
      rw [concat_cons, List.append_eq_nil_iff] at hnil
      exact absurd hnil.1 (hne t List.mem_cons_self)

/-! ### Cutting a text between two tokens -/

/-- The lists of tokens that the rest of a text may leave within what is pending: some of the pending
ones, or an operator whose last character a comment took. -/
def Boundary (pending done : List Token) : Prop :=
  done <+: pending ∨ ∃ before init last, pending = before ++ [⟨.operator, init ++ [last]⟩] ∧
    done = before ++ headTokens init

theorem Grown.boundary {state : State} {c : Char} {before after done : List Token}
    (hgrown : Grown d state c before after) (hafter : Boundary after done)
    (hlength : (concat done).length ≤ (concat before).length) : Boundary before done := by
  have hwhole : done ≠ after := by
    intro heq
    rw [heq, hgrown.concat_eq, List.length_append, List.length_singleton] at hlength
    omega
  cases hgrown with
  | lengthen before kind kind' text hkind =>
      rcases hafter with hprefix | ⟨front, init, last, heq, rfl⟩
      · rcases List.prefix_concat_iff.mp hprefix with hall | hpart
        · exact absurd hall hwhole
        · exact .inl (hpart.trans (List.prefix_append _ _))
      · obtain ⟨rfl, hlast⟩ := List.append_inj' heq rfl
        obtain ⟨rfl, htext⟩ := Token.mk.inj (List.singleton_inj.mp hlast)
        obtain ⟨rfl, _⟩ := List.append_inj' htext rfl
        rcases hkind with ⟨rfl, -⟩ | hkind
        · refine .inl ?_
          unfold headTokens
          split
          · rw [List.append_nil]
            exact List.prefix_append _ _
          · exact List.prefix_refl _
        · exact absurd rfl hkind.1
  | «open» before kind hspace hident =>
      rcases hafter with hprefix | ⟨front, init, last, heq, rfl⟩
      · rcases List.prefix_concat_iff.mp hprefix with hall | hpart
        · exact absurd hall hwhole
        · exact .inl hpart
      · obtain ⟨rfl, hlast⟩ := List.append_inj' heq rfl
        obtain ⟨_, htext⟩ := Token.mk.inj (List.singleton_inj.mp hlast)
        have hinit : init = [] := (List.append_inj' (show [] ++ _ = _ from htext) rfl).1.symm
        rw [hinit]
        exact .inl (by simp [headTokens])
  | join before kind hkind =>
      rcases hafter with hprefix | ⟨front, init, last, heq, rfl⟩
      · rcases List.prefix_concat_iff.mp (show done <+: [] ++ [_] from hprefix) with hall | hpart
        · exact absurd hall hwhole
        · rw [List.prefix_nil.mp hpart]
          exact .inl List.nil_prefix
      · obtain ⟨_, hlast⟩ := List.append_inj' (show [] ++ _ = _ from heq) rfl
        exact absurd (Token.mk.inj (List.singleton_inj.mp hlast)).1 hkind.1
  | split init last kind hlast hkind =>
      rcases hafter with hprefix | ⟨front, init', last', heq, rfl⟩
      · rcases List.prefix_concat_iff.mp hprefix with hall | hpart
        · exact absurd hall hwhole
        · by_cases hnil : done = []
          · rw [hnil]
            exact .inl List.nil_prefix
          · refine .inr ⟨[], init, last, rfl, ?_⟩
            unfold headTokens at hpart ⊢
            split at hpart
            · exact absurd (List.prefix_nil.mp hpart) hnil
            · rcases List.prefix_concat_iff.mp (show done <+: [] ++ [_] from hpart) with hall | hnone
              · rwa [if_neg ‹_›]
              · exact absurd (List.prefix_nil.mp hnone) hnil
      · obtain ⟨_, hlast'⟩ := List.append_inj' heq rfl
        exact absurd (Token.mk.inj (List.singleton_inj.mp hlast')).1 hkind.1

theorem Boundary.prefix_of_append {emitted pending done : List Token}
    (hboundary : Boundary pending done) : Boundary (emitted ++ pending) (emitted ++ done) := by
  rcases hboundary with hprefix | ⟨before, init, last, rfl, rfl⟩
  · exact .inl (List.prefix_append_right_inj _ |>.mpr hprefix)
  · exact .inr ⟨emitted ++ before, init, last, by simp, by simp⟩

theorem boundary_lexFrom {state : State} {text : List Char} {done rest : List Token}
    (heq : lexFrom d state text = done ++ rest)
    (hlength : (concat done).length ≤ (concat state.close).length) :
    Boundary state.close done := by
  induction text generalizing state done with
  | nil => exact .inl ⟨rest, heq.symm⟩
  | cons c text ih =>
      have hgrown := feed_grown d state c
      refine hgrown.boundary ?_ hlength
      have htotal : (concat (total (feed d state c))).length
          = (concat state.close).length + 1 := by
        rw [hgrown.concat_eq]
        simp
      rw [lexFrom] at heq
      rcases List.append_eq_append_iff.mp heq with ⟨more, hdone, hrest⟩ | ⟨more, hemitted, _⟩
      · subst hdone
        refine Boundary.prefix_of_append (ih hrest ?_)
        rw [total, concat_append, List.length_append] at htotal
        rw [concat_append, List.length_append] at hlength
        omega
      · exact .inl ⟨more ++ (feed d state c).2.close, by rw [total, hemitted, List.append_assoc]⟩

/-- A text cut off after one of its tokens has the tokens up to there. -/
theorem lex_prefix {text : List Char} {done rest : List Token} (heq : lex d text = done ++ rest) :
    lex d (concat done) = done := by
  have hrest : ∀ t ∈ lex d text, t.nonempty := lex_nonempty text
  have hpending : ∀ t ∈ lex d (concat done), t.nonempty := lex_nonempty (concat done)
  have hconcat : concat (lex d (concat done)) = concat done := concat_lex (concat done)
  have hscan : lex d (concat done) = _ := lexFrom_eq_scan .start (concat done)
  have htext : text = concat done ++ concat rest := by
    rw [← concat_append, ← heq, concat_lex]
  rw [heq] at hrest
  rw [htext, lex_append] at heq
  rw [hscan] at hpending hconcat ⊢
  generalize scan d .start (concat done) = step at *
  have hclose : concat step.2.close = [] → step.2.close = [] :=
    eq_nil_of_concat_nil fun t ht => hpending t (List.mem_append_right _ ht)
  rcases List.append_eq_append_iff.mp heq with ⟨more, hdone, hlater⟩ | ⟨more, hemitted, hlater⟩
  · -- The cut lies in what is pending, where the only cuts are after tokens pending now.
    subst hdone
    have hmore : concat step.2.close = concat more := by simpa using hconcat
    rcases boundary_lexFrom hlater (Nat.le_of_eq (congrArg List.length hmore.symm)) with
      ⟨left, hleft⟩ | ⟨before, init, last, hpend, hhead⟩
    · have hnone : concat left = [] := by
        rw [← hleft, concat_append] at hmore
        simpa using hmore
      have hleft' : left = [] := by
        refine eq_nil_of_concat_nil (fun t ht => hpending t ?_) hnone
        rw [← hleft]
        exact List.mem_append_right _ (List.mem_append_right _ ht)
      rw [← hleft, hleft', List.append_nil]
    · rw [hhead, hpend] at hmore
      simp [concat_headTokens] at hmore
  · have hboth : concat more = [] ∧ concat step.2.close = [] := by
      rw [hemitted] at hconcat
      simpa using hconcat
    have hmore : more = [] := by
      refine eq_nil_of_concat_nil (fun t ht => hrest t ?_) hboth.1
      rw [hlater]
      exact List.mem_append_right _ (List.mem_append_left _ ht)
    rw [hclose hboth.2, hemitted, hmore, List.append_nil, List.append_nil]

end Texts

end Sql
