import Mathlib.Data.List.DropRight
import Mathlib.Tactic.Common

/-!
# Pure POSIX paths

A path is its root and its parts. Empty parts and single dots are left out, double dots stay.
-/

namespace PosixPath

abbrev Text := List Char

def root : Text → Text
  | '/' :: '/' :: '/' :: _ => ['/']
  | '/' :: '/' :: _ => ['/', '/']
  | '/' :: _ => ['/']
  | _ => []

/-- The parts behind the root. -/
def components (path : Text) : List Text :=
  (path.splitOn '/').filter fun part => part ≠ [] && part ≠ ['.']

def parts (path : Text) : List Text :=
  if root path = [] then components path else root path :: components path

def isAbsolute (path : Text) : Bool := root path ≠ []

def asPosix (path : Text) : Text :=
  if root path = [] ∧ components path = [] then ['.']
  else root path ++ ['/'].intercalate (components path)

def name (path : Text) : Text := (components path).getLast?.getD []

/-- What begins with the last dot of a name, unless the name begins or ends with it. -/
def suffix (path : Text) : Text :=
  let name := name path
  let behind := name.rtakeWhile (· ≠ '.')
  if behind ≠ [] ∧ behind.length + 1 < name.length then '.' :: behind else []

/-- A relative path that is what its parts make. -/
def Clean (path : Text) : Prop := ∀ part ∈ path.splitOn '/', part ≠ [] ∧ part ≠ ['.']

instance (path : Text) : Decidable (Clean path) := inferInstanceAs (Decidable (∀ _ ∈ _, _))

variable {path : Text}

theorem Clean.components (hclean : Clean path) : components path = path.splitOn '/' := by
  refine List.filter_eq_self.mpr fun part hpart => ?_
  simpa using hclean part hpart

theorem Clean.root (hclean : Clean path) : root path = [] := by
  cases path with
  | nil => rfl
  | cons c rest =>
      have hne : c ≠ '/' := by
        rintro rfl
        have hfirst : [] ∈ ('/' :: rest).splitOn '/' := by
          rw [List.splitOn_cons_eq_if_modifyHead, if_pos (beq_self_eq_true '/')]
          exact List.mem_cons_self
        exact (hclean [] hfirst).1 rfl
      unfold PosixPath.root
      split
      all_goals
        first
        | rfl
        | rename_i heq
          exact absurd (List.cons.inj heq).1 hne

theorem Clean.asPosix (hclean : Clean path) : asPosix path = path := by
  have hsplit : path.splitOn '/' ≠ [] := List.splitOn_ne_nil '/' path
  rw [PosixPath.asPosix, hclean.root, hclean.components, if_neg (fun hnil => hsplit hnil.2)]
  exact List.intercalate_splitOn '/'

/-! ### Parts -/

theorem mem_of_mem_splitOn {text part : Text} {sep c : Char} (hpart : part ∈ text.splitOn sep)
    (hc : c ∈ part) : c ∈ text ∧ c ≠ sep := by
  induction text generalizing part with
  | nil =>
      obtain rfl := List.mem_singleton.mp hpart
      cases hc
  | cons d text ih =>
      rw [List.splitOn_cons_eq_if_modifyHead] at hpart
      split at hpart
      · rw [List.mem_cons] at hpart
        obtain rfl | hpart := hpart
        · cases hc
        · exact ⟨List.mem_cons_of_mem d (ih hpart hc).1, (ih hpart hc).2⟩
      · rename_i hsep
        cases hsplit : text.splitOn sep with
        | nil => exact absurd hsplit (List.splitOn_ne_nil sep text)
        | cons first others =>
            rw [hsplit] at ih hpart
            rw [List.modifyHead_cons, List.mem_cons] at hpart
            obtain rfl | hpart := hpart
            · rw [List.mem_cons] at hc
              obtain rfl | hc := hc
              · exact ⟨List.mem_cons_self, by simpa using hsep⟩
              · have hfirst := ih List.mem_cons_self hc
                exact ⟨List.mem_cons_of_mem d hfirst.1, hfirst.2⟩
            · have hother := ih (List.mem_cons_of_mem first hpart) hc
              exact ⟨List.mem_cons_of_mem d hother.1, hother.2⟩

/-- What stands behind the last separator is the end of the last part. -/
theorem splitOn_append_tail (front : Text) {tail : Text} (htail : '/' ∉ tail) :
    ∃ init last, (front ++ tail).splitOn '/' = init ++ [last] ∧ tail <:+ last := by
  induction front with
  | nil => exact ⟨[], tail, List.splitOn_eq_singleton htail, List.suffix_refl tail⟩
  | cons c front ih =>
      obtain ⟨init, last, hsplit, hlast⟩ := ih
      rw [List.cons_append, List.splitOn_cons_eq_if_modifyHead, hsplit]
      split
      · exact ⟨[] :: init, last, rfl, hlast⟩
      · cases init with
        | nil => exact ⟨[], c :: last, rfl, hlast.trans (List.suffix_cons c last)⟩
        | cons part init => exact ⟨(c :: part) :: init, last, rfl, hlast⟩

section Tail

variable {tail : Text} (htail : tail <:+ path) (hslash : '/' ∉ tail)
  (hend : ∃ c ∈ tail.getLast?, c ≠ '.')

include htail hslash hend

theorem components_tail : ∃ init last, components path = init ++ [last] ∧ tail <:+ last := by
  obtain ⟨front, rfl⟩ := htail
  obtain ⟨c, hc, hdot⟩ := hend
  obtain ⟨init, last, hsplit, hlast⟩ := splitOn_append_tail front hslash
  refine ⟨init.filter fun part => part ≠ [] && part ≠ ['.'], last, ?_, hlast⟩
  have hlastEnd : last.getLast? = some c := by
    obtain ⟨before, rfl⟩ := hlast
    rw [List.getLast?_append, hc]
    rfl
  have hkept : (last ≠ [] && last ≠ ['.']) = true := by
    have hnil : last ≠ [] := by
      rintro rfl
      cases hlastEnd
    have hsingle : last ≠ ['.'] := by
      rintro rfl
      exact hdot (Option.some.inj hlastEnd).symm
    simp [hnil, hsingle]
  rw [components, hsplit, List.filter_append, List.filter_singleton, hkept]
  rfl

theorem suffix_name : tail <:+ name path := by
  obtain ⟨init, last, hcomponents, hlast⟩ := components_tail htail hslash hend
  rw [name, hcomponents, List.getLast?_concat]
  exact hlast

theorem suffix_asPosix : tail <:+ asPosix path := by
  obtain ⟨init, last, hcomponents, hlast⟩ := components_tail htail hslash hend
  have hjoin : ∀ init : List Text, last <:+ ['/'].intercalate (init ++ [last]) := by
    intro init
    induction init with
    | nil => exact ⟨[], by simp⟩
    | cons part init ih =>
        obtain ⟨second, rest, hrest⟩ := List.exists_cons_of_ne_nil (l := init ++ [last]) (by simp)
        rw [List.cons_append, hrest, List.intercalate_cons_cons, ← hrest]
        exact ih.trans (List.suffix_append _ _)
  rw [asPosix, if_neg (by rw [hcomponents]; simp), hcomponents]
  exact (hlast.trans (hjoin init)).trans (List.suffix_append _ _)

end Tail

/-- The characters of a path and its separators are all that the parts make a path of. -/
theorem mem_asPosix {c : Char} (hroot : root path = []) (hcomponents : components path ≠ [])
    (hc : c ∈ asPosix path) : c = '/' ∨ c ∈ path := by
  have hjoin : ∀ parts : List Text, c ∈ ['/'].intercalate parts → c = '/' ∨ ∃ part ∈ parts, c ∈ part := by
    intro parts
    induction parts with
    | nil => exact fun h => absurd h List.not_mem_nil
    | cons part parts ih =>
        cases parts with
        | nil =>
            intro h
            rw [List.intercalate_singleton] at h
            exact .inr ⟨part, List.mem_cons_self, h⟩
        | cons second parts =>
            rw [List.intercalate_cons_cons, List.mem_append, List.mem_append, List.mem_singleton]
            rintro ((hpart | rfl) | hrest)
            · exact .inr ⟨part, List.mem_cons_self, hpart⟩
            · exact .inl rfl
            · exact (ih hrest).imp_right fun ⟨other, hother, hmem⟩ =>
                ⟨other, List.mem_cons_of_mem part hother, hmem⟩
  rw [asPosix, if_neg (fun hnil => hcomponents hnil.2), hroot, List.nil_append] at hc
  obtain rfl | ⟨part, hpart, hmem⟩ := hjoin _ hc
  · exact .inl rfl
  · exact .inr (mem_of_mem_splitOn (List.mem_of_mem_filter hpart) hmem).1

theorem splitOn_asPosix (hroot : root path = []) (hcomponents : components path ≠ []) :
    (asPosix path).splitOn '/' = components path := by
  rw [asPosix, if_neg (fun hnil => hcomponents hnil.2), hroot, List.nil_append]
  refine List.splitOn_intercalate '/' (fun part hpart hslash => ?_) hcomponents
  exact (mem_of_mem_splitOn (List.mem_of_mem_filter hpart) hslash).2 rfl

theorem clean_asPosix (hroot : root path = []) (hcomponents : components path ≠ []) :
    Clean (asPosix path) := by
  intro part hpart
  rw [splitOn_asPosix hroot hcomponents] at hpart
  simpa using (List.mem_filter.mp hpart).2

end PosixPath
