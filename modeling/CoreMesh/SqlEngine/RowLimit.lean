import CoreMesh.Lib.Separators
import CoreMesh.SqlEngine.Sandbox

/-!
# The appended row limit

`_append_row_limit` works on text: it strips semicolons from the end, parses what is left, drops white
space and comments from the end of the first statement and appends ` LIMIT n`. Whether the clause is
read as one depends on what the text before it ends in.
-/

namespace CoreMesh.SqlEngine

open Sql

def limitTokens (rowLimit : Nat) : List Token :=
  [⟨.ident, "LIMIT".toList⟩, ⟨.number, (toString rowLimit).toList⟩]

/-- A statement without the semicolons that end it. -/
def withoutTerminators (tokens : List Token) : List Token := tokens.rdropWhile (· == semicolon)

/-- The text is the statement followed by the limit, comments aside, and nothing else. -/
structure LimitEffective (rowLimit : Nat) (sql limited : List Char) : Prop where
  tokens : live (lex python limited)
    = withoutTerminators (live (lex python (strip sql))) ++ limitTokens rowLimit
  oneStatement : semicolon ∉ live (lex python limited)

/-- The semicolons at the end were the only ones, and the statement does not end, trailing white space
and comments of its own aside, in a line comment or in what it leaves unterminated. -/
structure EndsOutside (parser : SqlParse) (sql : List Char) : Prop where
  noSemicolon : semicolon ∉ lex python (withoutSemicolon sql)
  closed : ∀ statement ∈ parser.parse (withoutSemicolon sql),
    endsOpen (tokensOf (keptNodes statement)) = false

/-- What is cut off begins no statement, so a text that is one statement is one without it. -/
def SqlParse.CutsClean (parser : SqlParse) (sql : List Char) : Prop :=
  ∀ statement, (parser.parse (strip sql)).filter (fun statement => !(strip (textOf statement)).isEmpty)
    = [statement] → (parser.parse (withoutSemicolon sql)).length ≤ 1

/-! ### The limit clause -/

theorem live_limit_of_closed {state : State} (hclosed : state.isOpen = false) (rowLimit : Nat) :
    live (lexFrom python state (limitClause rowLimit)) = live state.close ++ limitTokens rowLimit := by
  obtain ⟨hne, hdigits, -⟩ := Separators.digits_toString rowLimit
  have hclause : lexFrom python state (limitClause rowLimit)
      = state.close ++ ⟨.space, [' ']⟩ :: lexFrom python .start
          ("LIMIT ".toList ++ (toString rowLimit).toList) := lexFrom_blank_word hclosed (by decide) _
  have hword : scan python .start "LIMIT ".toList
      = ([⟨.ident, "LIMIT".toList⟩, ⟨.space, [' ']⟩], .start) := by decide
  rw [hclause, lexFrom_append, hword]
  have hnumber : lexFrom python .start (toString rowLimit).toList = _ := lex_digits hne hdigits
  rw [hnumber, live_append]
  rfl

theorem plain_of_digit {c : Char} (hdigit : c.isDigit = true) :
    isPlain c = true ∧ isNewline c = false := by
  have hplain : ∀ x ∈ "*/\"'\\$".toList, x.isDigit = false :=
    Sql.forall_mem_of_all (by decide)
  refine ⟨?_, ?_⟩
  · rw [isPlain, Bool.not_eq_true', ← Bool.not_eq_true, List.contains_iff_mem]
    intro hmem
    rw [hplain c hmem] at hdigit
    cases hdigit
  · cases hline : isNewline c with
    | false => rfl
    | true =>
        have hspace : python.isSpace c = true := isSpace_of_newline hline
        rw [not_space_of_digit hdigit] at hspace
        cases hspace

theorem plain_limitClause (rowLimit : Nat) :
    ∀ c ∈ limitClause rowLimit, isPlain c = true ∧ isNewline c = false := by
  have hword : ∀ c ∈ " LIMIT ".toList, isPlain c = true ∧ isNewline c = false :=
    Sql.forall_mem_of_all (by decide)
  intro c hc
  rcases List.mem_append.mp hc with hc | hdigit
  · exact hword c hc
  · exact plain_of_digit ((Separators.digits_toString rowLimit).2.1 c hdigit)

/-! ### The text the clause is appended to -/

theorem rstrip_spec (text : List Char) :
    ∃ blank, text = rstrip text ++ blank ∧ (∀ c ∈ blank, isSpace c = true) ∧
      ∀ c, (rstrip text).getLast? = some c → isSpace c = false := by
  refine ⟨text.rtakeWhile isSpace, List.rdropWhile_append_rtakeWhile.symm,
    fun c hc => List.mem_rtakeWhile_imp hc, fun c hc => ?_⟩
  by_cases hnil : rstrip text = []
  · rw [hnil] at hc
    cases hc
  · rw [List.getLast?_eq_some_getLast hnil] at hc
    rw [← Option.some.inj hc]
    exact (Bool.not_eq_true _).mp (List.rdropWhile_last_not isSpace text hnil)

theorem leavesOf_append (left right : List Node) :
    leavesOf (left ++ right) = leavesOf left ++ leavesOf right := by
  induction left with
  | nil => rfl
  | cons node rest ih => rw [List.cons_append, leavesOf, leavesOf, ih, List.append_assoc]

theorem tokensOf_append (left right : List Node) :
    tokensOf (left ++ right) = tokensOf left ++ tokensOf right := by
  rw [tokensOf, leavesOf_append, List.flatMap_append]
  rfl

/-- A node that is dropped has no token the grammar sees. -/
theorem trivia_of_trailing {nodes : List Node} (htrailing : ∀ node ∈ nodes, node.isTrailing = true)
    (hwell : ∀ leaf ∈ leavesOf nodes, leaf.WellTyped) : ∀ t ∈ tokensOf nodes, t.isTrivia = true := by
  induction nodes with
  | nil =>
      intro t ht
      cases ht
  | cons node rest ih =>
      obtain ⟨hnode, hrest⟩ := List.forall_mem_cons.mp htrailing
      intro t ht
      have htokens : tokensOf (node :: rest) = tokensOf [node] ++ tokensOf rest :=
        tokensOf_append [node] rest
      rw [htokens] at ht
      rcases List.mem_append.mp ht with hfirst | hlater
      · match node, hnode with
        | .leaf ⟨.whitespace, tokens⟩, _ =>
            have hspace : ∀ t ∈ tokens, t.kind = .space := hwell _ List.mem_cons_self
            have hkind := hspace t (by simpa [tokensOf, leavesOf, Node.leaves] using hfirst)
            simp [Token.isTrivia, hkind]
        | .leaf ⟨.comment, tokens⟩, _ =>
            have htrivia : ∀ t ∈ tokens, t.isTrivia = true := hwell _ List.mem_cons_self
            exact htrivia t (by simpa [tokensOf, leavesOf, Node.leaves] using hfirst)
      · refine ih hrest (fun leaf hleaf => hwell leaf ?_) t hlater
        exact List.mem_append_right _ hleaf

theorem keptNodes_spec {statement : Statement}
    (hwell : ∀ leaf ∈ leavesOf statement, leaf.WellTyped) :
    ∃ dropped, tokensOf statement = tokensOf (keptNodes statement) ++ dropped ∧
      ∀ t ∈ dropped, t.isTrivia = true := by
  have hsplit : keptNodes statement ++ statement.rtakeWhile Node.isTrailing = statement :=
    List.rdropWhile_append_rtakeWhile
  refine ⟨tokensOf (statement.rtakeWhile Node.isTrailing), ?_, ?_⟩
  · rw [← tokensOf_append, hsplit]
  · refine trivia_of_trailing (fun node hnode => List.mem_rtakeWhile_imp hnode) fun leaf hleaf => ?_
    refine hwell leaf ?_
    rw [← hsplit, leavesOf_append]
    exact List.mem_append_right _ hleaf

/-- The tokens kept are those of the text they make up. -/
theorem lex_kept {text : List Char} {kept dropped : List Token}
    (hlex : lex python text = kept ++ dropped) : lex python (concat kept) = kept := lex_prefix hlex

section Appended

variable {text blank : List Char} (hblank : ∀ c ∈ blank, isSpace c = true)

include hblank

/-- After a text that is closed the clause is read as such. -/
theorem live_appended (hclosed : (scan python .start text).2.isOpen = false) (rowLimit : Nat) :
    live (lex python (text ++ limitClause rowLimit))
      = live (lex python (text ++ blank)) ++ limitTokens rowLimit := by
  have hsep : ∀ c ∈ blank, isSeparator python c = true := by
    intro c hc
    rw [isSeparator, show python.isSpace c = true from hblank c hc, Bool.true_or]
  have hspaces : blank.map separator = spaces blank := map_separator_of_space (d := python) hblank
  rw [lex_append, lex_append, live_append, live_limit_of_closed hclosed, lexFrom_separators hclosed hsep,
    hspaces, live_append, live_append, live_spaces, List.append_nil, List.append_assoc]

omit hblank in
/-- After a text that is open the clause belongs to its last token. -/
theorem lex_appended (hopen : (scan python .start text).2.isOpen = true) (rowLimit : Nat) :
    ∃ front kind inside, kind.isOpen = true ∧
      (front = [] ∨ ∃ literal between, front = gapTokens literal between) ∧
      lex python (text ++ limitClause rowLimit)
        = (scan python .start text).1 ++ front ++ [⟨kind, inside⟩] := by
  obtain ⟨front, kind, before, hclose, hkind, hfront⟩ := State.close_of_isOpen hopen
  refine ⟨front, kind, before ++ limitClause rowLimit, hkind, hfront, ?_⟩
  rw [lex_append, lexFrom_plain hopen hclose (plain_limitClause rowLimit), List.append_assoc]

end Appended

/-- Only white space and semicolons are cut off. -/
theorem withoutSemicolon_spec (sql : List Char) :
    ∃ cut, strip sql = withoutSemicolon sql ++ cut ∧ ∀ c ∈ cut, isSeparator python c = true := by
  have hsemis : rstripSemicolons (strip sql) ++ (strip sql).rtakeWhile (· == ';') = strip sql :=
    List.rdropWhile_append_rtakeWhile
  obtain ⟨blank, hblank, hspace, -⟩ := rstrip_spec (rstripSemicolons (strip sql))
  refine ⟨blank ++ (strip sql).rtakeWhile (· == ';'), ?_, fun c hc => ?_⟩
  · rw [withoutSemicolon, ← List.append_assoc, ← hblank, hsemis]
  · rcases List.mem_append.mp hc with hleft | hright
    · rw [isSeparator, show python.isSpace c = true from hspace c hleft, Bool.true_or]
    · rw [isSeparator, List.mem_rtakeWhile_imp hright, Bool.or_true]

theorem strip_strip (sql : List Char) : strip (strip sql) = strip sql := by
  have hlstrip : lstrip (strip sql) = strip sql := by
    have hprefix : strip sql <+: lstrip sql := List.rdropWhile_prefix isSpace (lstrip sql)
    cases htext : strip sql with
    | nil => rfl
    | cons c rest =>
        rw [htext] at hprefix
        obtain ⟨more, hmore⟩ := hprefix
        have hne : sql.dropWhile isSpace ≠ [] := by
          intro hnil
          rw [lstrip, hnil] at hmore
          cases hmore
        have hhead := List.head_dropWhile_not isSpace hne
        have hc : (sql.dropWhile isSpace).head hne = c := by
          have hcons : sql.dropWhile isSpace = c :: (rest ++ more) := hmore.symm
          simp [hcons]
        rw [hc] at hhead
        exact List.dropWhile_cons_of_neg (by simp [hhead])
  rw [strip, hlstrip]
  exact List.rdropWhile_idempotent isSpace (lstrip sql)

theorem separator_eq (c : Char) : separator c = semicolon ∨ (separator c).isTrivia = true := by
  unfold separator
  split
  · rename_i hsemi
    rw [hsemi]
    exact .inl rfl
  · exact .inr rfl

/-- Of separators the grammar sees semicolons. -/
theorem live_separators (text : List Char) :
    ∀ t ∈ live (text.map separator), t = semicolon := by
  intro t ht
  obtain ⟨hmem, hlive⟩ := List.mem_filter.mp ht
  obtain ⟨c, -, rfl⟩ := List.mem_map.mp hmem
  rcases separator_eq c with hsemi | htrivia
  · exact hsemi
  · rw [htrivia] at hlive
    cases hlive

/-- Separators after a text that does not end in an unterminated token add only semicolons. -/
theorem live_lex_cut {text cut : List Char}
    (hterminated : ∀ front before, (scan python .start text).2.close ≠ front ++ [⟨.unterminated, before⟩])
    (hcut : ∀ c ∈ cut, isSeparator python c = true) :
    ∃ semis, (∀ t ∈ semis, t = semicolon) ∧
      live (lex python (text ++ cut)) = live (lex python text) ++ semis := by
  have htext : lex python text = _ := lexFrom_eq_scan .start text
  rw [lex_append, htext]
  generalize scan python .start text = step at *
  cases hopen : step.2.isOpen with
  | false =>
      refine ⟨_, live_separators cut, ?_⟩
      rw [lexFrom_separators hopen hcut, ← List.append_assoc, live_append]
  | true =>
      obtain ⟨front, kind, before, inside, outside, hclose, hkind, -, hlex, -⟩ :=
        lexFrom_open_separators hopen hcut
      have hline : kind = .lineComment := by
        cases kind with
        | lineComment => rfl
        | unterminated => exact absurd hclose (hterminated front before)
        | _ => cases hkind
      refine ⟨_, live_separators outside, ?_⟩
      rw [hlex, hclose, hline, live_append, live_append]
      simp [live, Token.isTrivia]

/-! ### Dropping from the end -/

theorem rdropWhile_append {α : Type} {p : α → Bool} {front back : List α}
    (hfront : ∀ x ∈ front, p x = false) (hback : ∀ x ∈ back, p x = true) :
    (front ++ back).rdropWhile p = front := by
  induction back using List.reverseRecOn with
  | nil =>
      rw [List.append_nil, List.rdropWhile_eq_self_iff]
      intro hne
      simp [hfront _ (List.getLast_mem hne)]
  | append_singleton init last ih =>
      rw [← List.append_assoc, List.rdropWhile_concat_pos p _ _ (hback last (by simp))]
      exact ih fun x hx => hback x (List.mem_append_left _ hx)

theorem length_le_rdropWhile {α : Type} {p : α → Bool} {front : List α}
    (hfront : ∀ x ∈ front, p x = false) (back : List α) :
    front.length ≤ ((front ++ back).rdropWhile p).length := by
  induction back using List.reverseRecOn with
  | nil => rw [rdropWhile_append hfront (by simp)]
  | append_singleton init last ih =>
      rw [← List.append_assoc]
      by_cases hlast : p last = true
      · rw [List.rdropWhile_concat_pos p _ _ hlast]
        exact ih
      · rw [List.rdropWhile_concat_neg p _ _ hlast]
        simp

/-! ### Sanitizing -/

theorem appendRowLimit_ok {parser : SqlParse} {config : SQLSandboxConfig} {sql limited : List Char}
    (hok : appendRowLimit parser config (strip sql) = .ok limited) :
    ∃ statement rest, parser.parse (withoutSemicolon sql) = statement :: rest ∧
      limited = rstrip (textOf (keptNodes statement)) ++ limitClause config.rowLimit := by
  have htext : withoutSemicolon (strip sql) = withoutSemicolon sql := by
    rw [withoutSemicolon, strip_strip, withoutSemicolon]
  rw [appendRowLimit, htext, stripTrailingComments] at hok
  cases hparse : parser.parse (withoutSemicolon sql) with
  | nil =>
      rw [hparse] at hok
      cases hok
  | cons statement rest =>
      rw [hparse] at hok
      exact ⟨statement, rest, rfl, (Except.ok.inj hok).symm⟩

/-- The parts of an accepted text that a limit was appended to. -/
structure Appended (parser : SqlParse) (sql limited : List Char) (rowLimit : Nat) where
  statement : Statement
  parsed : parser.parse (withoutSemicolon sql) = [statement]
  /-- The tokens after the ones kept. -/
  dropped : List Token
  tokens : lex python (withoutSemicolon sql) = tokensOf (keptNodes statement) ++ dropped
  trivia : ∀ t ∈ dropped, t.isTrivia = true
  text : limited = rstrip (textOf (keptNodes statement)) ++ limitClause rowLimit

theorem appended_of_accepted {parser : SqlParse} {unicodeWord : Char → Bool}
    {config : SQLSandboxConfig} {sql : List Char} {accepted : SanitizedSQL}
    (hagrees : parser.Agrees (withoutSemicolon sql)) (hclean : parser.CutsClean sql)
    (hok : sanitizeSql parser unicodeWord config sql = .ok accepted)
    (hlimit : accepted.limitApplied = true) :
    Nonempty (Appended parser sql accepted.sql config.rowLimit) := by
  obtain ⟨whole, hwhole, -, -, hcase⟩ := sanitizeSql_ok hok
  have happend : appendRowLimit parser config (strip sql) = .ok accepted.sql := by
    rcases hcase with hplain | ⟨-, happend⟩
    · rw [hplain] at hlimit
      cases hlimit
    · exact happend
  obtain ⟨statement, rest, hparse, htext⟩ := appendRowLimit_ok happend
  have hsingle := hclean whole hwhole
  obtain rfl : rest = [] := by
    rw [hparse, List.length_cons] at hsingle
    exact List.eq_nil_of_length_eq_zero (by omega)
  have htokens := hagrees.tokens
  rw [hparse, List.flatMap_singleton] at htokens
  obtain ⟨dropped, hkept, htrivia⟩ :=
    keptNodes_spec (hagrees.wellTyped statement (by rw [hparse]; exact List.mem_singleton_self _))
  exact ⟨⟨statement, hparse, dropped, by rw [← htokens, hkept], htrivia, htext⟩⟩

theorem limitTokens_ne {rowLimit : Nat} {t : Token} (ht : t ∈ limitTokens rowLimit) :
    t ≠ semicolon := by
  rcases List.mem_cons.mp ht with rfl | ht
  · decide
  · rw [List.mem_singleton.mp ht]
    intro heq
    cases congrArg Token.kind heq

namespace Appended

variable {parser : SqlParse} {sql limited : List Char} {rowLimit : Nat}
  (happended : Appended parser sql limited rowLimit)

include happended

/-- The text before the clause, and the white space that was behind it. -/
theorem text_spec :
    ∃ text blank, textOf (keptNodes happended.statement) = text ++ blank ∧
      (∀ c ∈ blank, isSpace c = true) ∧ limited = text ++ limitClause rowLimit ∧
      lex python (text ++ blank) = tokensOf (keptNodes happended.statement) ∧
      (scan python .start text).2.isOpen = endsOpen (tokensOf (keptNodes happended.statement)) := by
  obtain ⟨blank, hblank, hspace, hlast⟩ := rstrip_spec (textOf (keptNodes happended.statement))
  have hkept : lex python (textOf (keptNodes happended.statement)) = _ := lex_kept happended.tokens
  refine ⟨_, blank, hblank, hspace, happended.text, ?_, ?_⟩
  · rw [← hblank, hkept]
  · rw [← hkept]
    conv_rhs => rw [hblank]
    exact (endsOpen_lex_spaces hlast hspace).symm

theorem live_kept :
    live (tokensOf (keptNodes happended.statement)) = live (lex python (withoutSemicolon sql)) := by
  have hdropped : live happended.dropped = [] := by
    rw [live, List.filter_eq_nil_iff]
    intro t ht
    rw [happended.trivia t ht]
    simp
  rw [happended.tokens, live_append, hdropped, List.append_nil]

/-- A statement that ends outside comments and constants leaves none of them open in the text. -/
theorem terminated (hclosed : endsOpen (tokensOf (keptNodes happended.statement)) = false) :
    ∀ front before, (scan python .start (withoutSemicolon sql)).2.close ≠
      front ++ [⟨.unterminated, before⟩] := by
  intro front before hclose
  have hlex : lex python (withoutSemicolon sql) = _ := lexFrom_eq_scan .start (withoutSemicolon sql)
  rw [hclose, happended.tokens, ← List.append_assoc] at hlex
  rcases List.eq_nil_or_concat happended.dropped with hnil | ⟨init, last, hdropped⟩
  · rw [hnil, List.append_nil] at hlex
    have hlast : endsOpen ((scan python .start (withoutSemicolon sql)).1 ++ front
        ++ [⟨.unterminated, before⟩]) = true := endsOpen_last _ (by simp) []
    rw [hlex, hlast] at hclosed
    cases hclosed
  · have hmem := happended.trivia last (by rw [hdropped]; simp)
    rw [hdropped, List.concat_eq_append, ← List.append_assoc] at hlex
    rw [(List.append_inj' hlex rfl).2 |> List.singleton_inj.mp] at hmem
    cases hmem

/-- What is before the clause is what the accepted text begins with. -/
theorem strip_eq {text blank : List Char}
    (htext : textOf (keptNodes happended.statement) = text ++ blank) :
    ∃ more, strip sql = text ++ more := by
  obtain ⟨cut, hcut, -⟩ := withoutSemicolon_spec sql
  have hwhole : withoutSemicolon sql = text ++ blank ++ concat happended.dropped := by
    rw [← htext, textOf, ← concat_append, ← happended.tokens, concat_lex]
  exact ⟨blank ++ concat happended.dropped ++ cut, by rw [hcut, hwhole]; simp⟩

/-- A clause inside an open token is not read. -/
theorem closed_of_effective (heffective : LimitEffective rowLimit sql limited) :
    endsOpen (tokensOf (keptNodes happended.statement)) = false := by
  obtain ⟨text, blank, htext, hspace, hlimited, -, hopen⟩ := happended.text_spec
  by_contra hends
  have hscan : (scan python .start text).2.isOpen = true := by
    rw [hopen]
    simpa using hends
  obtain ⟨front, kind, inside, hkind, hgap, hout⟩ := lex_appended hscan rowLimit
  have htokens := heffective.tokens
  have hone := heffective.oneStatement
  rw [hlimited, hout, live_append] at htokens hone
  cases kind with
  | lineComment =>
      -- The clause is gone, so the tokens before it would have to make up for it.
      have hfront : live ((scan python .start text).1 ++ front) =
          withoutTerminators (live (lex python (strip sql))) ++ limitTokens rowLimit := by
        rw [← htokens]
        exact (List.append_nil _).symm
      rw [live_append] at hfront
      obtain rfl | ⟨literal, between, rfl⟩ := hgap
      case inr =>
        -- The last of them is a string constant.
        rw [live_gapTokens] at hfront
        have hlast := List.append_inj' (hfront.trans (List.append_cons _ _ _)) rfl
        cases congrArg Token.kind (List.singleton_inj.mp hlast.2)
      rw [show live [] = [] from rfl, List.append_nil] at hfront
      obtain ⟨more, hmore⟩ := happended.strip_eq htext
      have hstrip : live (lex python (strip sql))
          = live (scan python .start text).1 ++ live (lexFrom python (scan python .start text).2 more) := by
        rw [hmore, lex_append, live_append]
      have hle : (live (scan python .start text).1).length ≤ (withoutTerminators (live (lex python (strip sql)))).length := by
        rw [hstrip]
        refine length_le_rdropWhile (fun t ht => ?_) _
        have hne : t ≠ semicolon := by
          rintro rfl
          exact hone (List.mem_append_left _ (live_append _ _ ▸ List.mem_append_left _ ht))
        simpa using hne
      have hlength := congrArg List.length hfront
      rw [List.length_append] at hlength
      have htwo : (limitTokens rowLimit).length = 2 := rfl
      omega
  | unterminated =>
      have hlast : live ((scan python .start text).1 ++ front) ++ [⟨.unterminated, inside⟩]
          = withoutTerminators (live (lex python (strip sql))) ++ [⟨.ident, "LIMIT".toList⟩]
            ++ [⟨.number, (toString rowLimit).toList⟩] := by
        rw [List.append_assoc]
        exact htokens
      have hkinds := List.singleton_inj.mp (List.append_inj' hlast rfl).2
      cases congrArg Token.kind hkinds
  | _ => cases hkind

end Appended

theorem EndsOutside.limitEffective {parser : SqlParse} {sql limited : List Char} {rowLimit : Nat}
    (happended : Appended parser sql limited rowLimit) (hends : EndsOutside parser sql) :
    LimitEffective rowLimit sql limited := by
  obtain ⟨text, blank, -, hspace, hlimited, hlex, hopen⟩ := happended.text_spec
  have hclosed : endsOpen (tokensOf (keptNodes happended.statement)) = false :=
    hends.closed _ (by rw [happended.parsed]; exact List.mem_singleton_self _)
  obtain ⟨cut, hcut, hsep⟩ := withoutSemicolon_spec sql
  obtain ⟨semis, hsemis, hlive⟩ := live_lex_cut (happended.terminated hclosed) hsep
  have hout : live (lex python limited)
      = live (lex python (withoutSemicolon sql)) ++ limitTokens rowLimit := by
    rw [hlimited, live_appended hspace (by rw [hopen, hclosed]), hlex, happended.live_kept]
  have hnone : ∀ t ∈ live (lex python (withoutSemicolon sql)), t ≠ semicolon := by
    rintro t ht rfl
    exact hends.noSemicolon (List.mem_of_mem_filter ht)
  constructor
  · rw [hout, hcut, hlive, withoutTerminators, rdropWhile_append]
    · intro t ht
      simpa using hnone t ht
    · intro t ht
      simpa using hsemis t ht
  · rw [hout]
    intro hmem
    rcases List.mem_append.mp hmem with hbefore | hclause
    · exact hnone _ hbefore rfl
    · exact limitTokens_ne hclause rfl

theorem LimitEffective.endsOutside {parser : SqlParse} {sql limited : List Char} {rowLimit : Nat}
    (happended : Appended parser sql limited rowLimit) (heffective : LimitEffective rowLimit sql limited) :
    EndsOutside parser sql := by
  have hclosed := happended.closed_of_effective heffective
  obtain ⟨text, blank, -, hspace, hlimited, hlex, hopen⟩ := happended.text_spec
  constructor
  · intro hmem
    refine heffective.oneStatement ?_
    rw [hlimited, live_appended hspace (by rw [hopen, hclosed]), hlex, happended.live_kept]
    exact List.mem_append_left _ (List.mem_filter.mpr ⟨hmem, rfl⟩)
  · intro statement hstatement
    rw [happended.parsed, List.mem_singleton] at hstatement
    rw [hstatement, hclosed]

theorem selectParse_cutsClean (sql : List Char) : selectParse.CutsClean sql := by
  intro _ _
  simp only [selectParse]
  split <;> simp

end CoreMesh.SqlEngine
