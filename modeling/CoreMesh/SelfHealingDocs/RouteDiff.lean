import CoreMesh.Lib.Separators
import CoreMesh.SelfHealingDocs.GoUnits
import CoreMesh.SelfHealingDocs.Removals

/-!
# Changes of one route

The identity of a route has its position among all registrations of the file. One registration more, or
less, moves those behind it, and each of these is then compared with its neighbour.
-/

namespace CoreMesh.SelfHealingDocs

open OrderedDict (last?)

/-! ### Identities -/

theorem routeIdentity_eq (callee : Text) (i : Nat) : routeIdentity callee i =
    UnitKind.goRoute.text ++ ':' :: (callee ++ ':' :: (toString i).toList) := rfl

theorem routeIdentity_inj {callee callee' : Text} {i j : Nat} :
    routeIdentity callee i = routeIdentity callee' j ↔ callee = callee' ∧ i = j := by
  constructor
  · intro hsame
    rw [routeIdentity_eq, routeIdentity_eq] at hsame
    have hrest := (List.cons.inj (List.append_cancel_left hsame)).2
    have hnocolon : ∀ n : Nat, ':' ∉ (toString n).toList := by
      intro n hcolon
      exact absurd ((Separators.digits_toString n).2.1 _ hcolon) (by decide)
    obtain ⟨hcallee, hdigits⟩ :=
      Separators.last_separator (hnocolon i) (hnocolon j) hrest
    refine ⟨hcallee, ?_⟩
    rw [← (Separators.digits_toString i).2.2, hdigits, (Separators.digits_toString j).2.2]
  · intro hsame
    rw [hsame.1, hsame.2]

theorem isRoute_of_identity {unit : StructuralUnit} (hgo : IsGoUnit unit) {callee : Text} {i : Nat}
    (hidentity : unit.identity = routeIdentity callee i) : unit.isRoute = true := by
  obtain ⟨rest, hrest⟩ := hgo.identity
  rw [hidentity, routeIdentity_eq] at hrest
  have hkind : UnitKind.goRoute.text = unit.kind.text := by
    refine (@Separators.first_separator ':' _ _ _ _ (by decide) ?_ hrest).1
    cases unit.kind <;> decide
  rw [StructuralUnit.isRoute]
  cases hcase : unit.kind <;> rw [hcase] at hkind <;> revert hkind <;> decide

/-! ### Which unit of a route is compared -/

section Compared

variable {frontend : Frontend} {path : Text} {routes : List RouteRegistration} {units : List StructuralUnit}

variable (frontend path routes) in
/-- The unit of the registration at a position, if it calls the callee. -/
def routeAt (callee : Text) (routeIndex : Nat) : Option StructuralUnit :=
  (routes[routeIndex]?.filter fun route => route.callee = callee).map fun route =>
    routeUnit frontend path route routeIndex

theorem FindsRoutes.mem_iff (hfinds : FindsRoutes frontend path 0 routes units) {unit : StructuralUnit}
    (hroute : unit.isRoute = true) :
    unit ∈ units ↔ ∃ i route, routes[i]? = some route ∧ routeUnit frontend path route i = unit := by
  have hfilter : unit ∈ units ↔ unit ∈ units.filter StructuralUnit.isRoute := by
    rw [List.mem_filter, and_iff_left hroute]
  rw [hfilter, hfinds.routes, List.mem_map]
  constructor
  · rintro ⟨⟨route, i⟩, hmem, rfl⟩
    exact ⟨i, route, List.mem_zipIdx_iff_getElem?.mp hmem, rfl⟩
  · rintro ⟨i, route, hget, rfl⟩
    exact ⟨(route, i), List.mem_zipIdx_iff_getElem?.mpr hget, rfl⟩

theorem routeAt_of_some {callee : Text} {i : Nat} {route : RouteRegistration}
    (hget : routes[i]? = some route) : routeAt frontend path routes callee i =
      if route.callee = callee then some (routeUnit frontend path route i) else none := by
  rw [routeAt, hget, Option.filter_some]
  by_cases hcallee : route.callee = callee
  · rw [if_pos hcallee, if_pos (decide_eq_true hcallee)]
    rfl
  · rw [if_neg hcallee, if_neg (by simpa using hcallee)]
    rfl

theorem routeAt_of_none {callee : Text} {i : Nat} (hget : routes[i]? = none) :
    routeAt frontend path routes callee i = none := by
  rw [routeAt, hget]
  rfl

theorem FindsRoutes.comparedUnit_eq (hfinds : FindsRoutes frontend path 0 routes units) (callee : Text)
    (i : Nat) : comparedUnit .go units (routeIdentity callee i) = routeAt frontend path routes callee i := by
  cases hcompared : comparedUnit .go units (routeIdentity callee i) with
  | some unit =>
      obtain ⟨hidentity, hmem⟩ := OrderedDict.key_of_last? hcompared
      have hunit : unit ∈ units := List.mem_reverse.mp hmem
      have hroute := isRoute_of_identity (hfinds.isGoUnit unit hunit) hidentity
      obtain ⟨j, route, hget, rfl⟩ := (hfinds.mem_iff hroute).mp hunit
      obtain ⟨rfl, rfl⟩ := routeIdentity_inj.mp hidentity
      rw [routeAt_of_some hget, if_pos rfl]
  | none =>
      cases hget : routes[i]? with
      | none => rw [routeAt_of_none hget]
      | some route =>
          have hne : route.callee ≠ callee := by
            rintro rfl
            have hmem := (hfinds.mem_iff (decide_eq_true rfl)).mpr ⟨i, route, hget, rfl⟩
            exact OrderedDict.last?_eq_none_iff.mp hcompared _ (List.mem_reverse.mpr hmem) rfl
          rw [routeAt_of_some hget, if_neg hne]

/-- The compared units of kind route are those of registrations. -/
theorem FindsRoutes.eq_routeIdentity (hfinds : FindsRoutes frontend path 0 routes units)
    {identity : Text} {unit : StructuralUnit} (hcompared : comparedUnit .go units identity = some unit)
    (hroute : unit.isRoute = true) :
    ∃ i route, routes[i]? = some route ∧ identity = routeIdentity route.callee i := by
  obtain ⟨rfl, hmem⟩ := OrderedDict.key_of_last? hcompared
  obtain ⟨i, route, hget, rfl⟩ := (hfinds.mem_iff hroute).mp (List.mem_reverse.mp hmem)
  exact ⟨i, route, hget, rfl⟩

end Compared

/-! ### What is reported of an identity -/

def StructuralChange.isRoute (report : StructuralChange) : Bool := report.kind = .goRoute

/-- A report that a call is new, or gone. -/
structure ReportsCall (report : StructuralChange) (change : ChangeType) (representation : Text) : Prop where
  changeType : report.changeType = change
  before : report.before = if change = .added then none else some representation
  after : report.after = if change = .removed then none else some representation

/-- Of the routes one call is reported, as new or gone, and none as modified. -/
structure ReportsOnly (changes : List StructuralChange) (change : ChangeType) (representation : Text) :
    Prop where
  single : ∃ report, changes.filter StructuralChange.isRoute = [report] ∧
    ReportsCall report change representation
  unmodified : ∀ report ∈ changes, report.isRoute = true →
    report.changeType ≠ .modified ∧ report.autoFixEligible = false

/-- What is reported of the units with one identity in the version with a route less and in the one with
it. -/
inductive CallReport (change : ChangeType) (report : StructuralChange) :
    Option StructuralUnit → Option StructuralUnit → Prop where
  | only {long : StructuralUnit} (hcall : ReportsCall report change long.representation)
      (heligible : report.autoFixEligible = false) (hkind : report.kind = long.kind) :
      CallReport change report none (some long)
  | gone {short : StructuralUnit} (hchange : report.changeType ≠ change) (hkind : report.kind = short.kind) :
      CallReport change report (some short) none
  | differs {short long : StructuralUnit} (hchange : report.changeType ≠ change)
      (hdiffer : short.representation ≠ long.representation)
      (hkind : report.kind = short.kind ∨ report.kind = long.kind) :
      CallReport change report (some short) (some long)

section Reports

variable {frontend : Frontend} {delta : SourceFileDelta} {identity : Text}
  {short long : Option StructuralUnit} {report : StructuralChange}

theorem callReport_added (hreport : diffIdentity frontend delta identity short long = some report) :
    CallReport .added report short long := by
  cases short with
  | none =>
      cases long with
      | none => cases hreport
      | some long =>
          obtain rfl := Option.some.inj hreport
          exact .only ⟨rfl, rfl, rfl⟩ rfl rfl
  | some short =>
      cases long with
      | none =>
          obtain rfl := Option.some.inj hreport
          exact .gone ChangeType.noConfusion rfl
      | some long =>
          rw [diffIdentity] at hreport
          split at hreport
          · cases hreport
          · rename_i hdiffer
            obtain rfl := Option.some.inj hreport
            exact .differs ChangeType.noConfusion hdiffer (.inr rfl)

theorem callReport_removed (hreport : diffIdentity frontend delta identity long short = some report) :
    CallReport .removed report short long := by
  cases short with
  | none =>
      cases long with
      | none => cases hreport
      | some long =>
          obtain rfl := Option.some.inj hreport
          exact .only ⟨rfl, rfl, rfl⟩ rfl rfl
  | some short =>
      cases long with
      | none =>
          obtain rfl := Option.some.inj hreport
          exact .gone ChangeType.noConfusion rfl
      | some long =>
          rw [diffIdentity] at hreport
          split at hreport
          · cases hreport
          · rename_i hdiffer
            obtain rfl := Option.some.inj hreport
            exact .differs ChangeType.noConfusion (Ne.symm hdiffer) (.inl rfl)

end Reports

/-! ### One registration more -/

/-- What the diff can tell of a registration: whom it calls, and with what. -/
def Registration.call (route : Registration) : Text × Text :=
  (route.callee, joinWith ", " route.renderedArgs)

theorem Registration.representation_eq_iff {route other : Registration}
    (hcallee : route.callee = other.callee) :
    route.representation = other.representation ↔ route.call = other.call := by
  rw [representation, representation, call, call, hcallee]
  constructor
  · intro hsame
    have hargs := (List.cons.inj (List.append_cancel_left (List.append_cancel_right hsame))).2
    rw [hargs]
  · intro hsame
    rw [(Prod.mk.inj hsame).2]

section Shift

variable {α κ : Type*} {key : α → κ} {front back : List α} {a : α}

theorem aligned_cons_iff :
    (∀ (i : Nat) (x y : α), back[i]? = some x → (a :: back)[i]? = some y → key x = key y) ↔
      ∀ b ∈ back, key b = key a := by
  constructor
  · intro haligned
    induction back generalizing a with
    | nil => exact fun b hb => absurd hb List.not_mem_nil
    | cons b back ih =>
        have hfirst : key b = key a := haligned 0 b a rfl rfl
        have hrest : ∀ c ∈ back, key c = key b := ih fun i x y hx hy => haligned (i + 1) x y hx hy
        exact List.forall_mem_cons.mpr ⟨hfirst, fun c hc => (hrest c hc).trans hfirst⟩
  · intro hsame i x y hx hy
    have hkey : key y = key a := by
      obtain rfl | hmem := List.mem_cons.mp (List.mem_of_getElem? hy)
      · rfl
      · exact hsame y hmem
    rw [hsame x (List.mem_of_getElem? hx), hkey]

/-- With an element put in between, the same keys stand at the same places exactly if those behind it have
its key. -/
theorem aligned_iff :
    (∀ (i : Nat) (x y : α), (front ++ back)[i]? = some x → (front ++ a :: back)[i]? = some y →
      key x = key y) ↔ ∀ b ∈ back, key b = key a := by
  rw [← aligned_cons_iff]
  constructor
  · intro haligned i x y hx hy
    apply haligned (front.length + i) x y
    · rw [List.getElem?_append_right (by omega), Nat.add_sub_cancel_left, hx]
    · rw [List.getElem?_append_right (by omega), Nat.add_sub_cancel_left, hy]
  · intro haligned i x y hx hy
    by_cases hfront : i < front.length
    · rw [List.getElem?_append_left hfront] at hx hy
      rw [Option.some.inj (hx.symm.trans hy)]
    · rw [List.getElem?_append_right (by omega)] at hx hy
      exact haligned (i - front.length) x y hx hy

end Shift

section Filter

variable {α β : Type*} {f : α → Option β} {l : List α} {a : α} {b : β}

theorem filterMap_eq_singleton (hnodup : l.Nodup) (ha : a ∈ l) (hfa : f a = some b)
    (hother : ∀ x ∈ l, x ≠ a → f x = none) : l.filterMap f = [b] := by
  obtain ⟨before, after, rfl⟩ := List.append_of_mem ha
  obtain ⟨-, hafter, hapart⟩ := List.nodup_append.mp hnodup
  have hbefore : before.filterMap f = [] := by
    refine List.filterMap_eq_nil_iff.mpr fun x hx => hother x (List.mem_append_left _ hx) ?_
    exact hapart x hx a List.mem_cons_self
  have hbehind : after.filterMap f = [] := by
    refine List.filterMap_eq_nil_iff.mpr fun x hx =>
      hother x (List.mem_append_right _ (List.mem_cons_of_mem _ hx)) ?_
    rintro rfl
    exact (List.nodup_cons.mp hafter).1 hx
  rw [List.filterMap_append, hbefore, List.filterMap_cons_some hfa, hbehind, List.nil_append]

end Filter

section Edit

variable {frontend : Frontend} {shortPath longPath : Text} {shortUnits longUnits : List StructuralUnit}
  {short long : List RouteRegistration} {route : Registration} {change : ChangeType}
  {f : Text → Option StructuralChange} {ids : List Text}

/-- What a diff makes of the identities of two versions, of which one has a registration more. -/
structure IsDiff (shortUnits longUnits : List StructuralUnit) (change : ChangeType) (ids : List Text)
    (f : Text → Option StructuralChange) : Prop where
  nodup : ids.Nodup
  mem : ∀ id, f id ≠ none → id ∈ ids
  none_iff : ∀ id, f id = none ↔
    (comparedUnit .go shortUnits id).map StructuralUnit.representation =
      (comparedUnit .go longUnits id).map StructuralUnit.representation
  callReport : ∀ id report, f id = some report →
    CallReport change report (comparedUnit .go shortUnits id) (comparedUnit .go longUnits id)

/-- At the places that both versions have, they make the same calls. -/
def SameCalls (short long : List RouteRegistration) : Prop :=
  ∀ (i : Nat) (x y : RouteRegistration), short[i]? = some x → long[i]? = some y → x.call = y.call

/-- A route is reported of a position only. -/
theorem exists_routeIdentity (hshort : FindsRoutes frontend shortPath 0 short shortUnits)
    (hlong : FindsRoutes frontend longPath 0 long longUnits)
    (hdiff : IsDiff shortUnits longUnits change ids f) {id : Text} {report : StructuralChange}
    (hreport : f id = some report) (hroute : report.isRoute = true) :
    ∃ callee i, id = routeIdentity callee i := by
  have hunit : ∃ unit, report.kind = unit.kind ∧
      (comparedUnit .go shortUnits id = some unit ∨ comparedUnit .go longUnits id = some unit) := by
    have hcases := hdiff.callReport id report hreport
    revert hcases
    generalize comparedUnit .go shortUnits id = short
    generalize comparedUnit .go longUnits id = long
    rintro (⟨-, -, hkind⟩ | ⟨-, hkind⟩ | ⟨-, -, hkind | hkind⟩)
    · exact ⟨_, hkind, .inr rfl⟩
    · exact ⟨_, hkind, .inl rfl⟩
    · exact ⟨_, hkind, .inl rfl⟩
    · exact ⟨_, hkind, .inr rfl⟩
  obtain ⟨unit, hkind, hunit⟩ := hunit
  have hisRoute : unit.isRoute = true := by
    rw [StructuralUnit.isRoute, ← hkind]
    exact hroute
  obtain hfound | hfound := hunit
  · obtain ⟨i, other, -, hid⟩ := hshort.eq_routeIdentity hfound hisRoute
    exact ⟨other.callee, i, hid⟩
  · obtain ⟨i, other, -, hid⟩ := hlong.eq_routeIdentity hfound hisRoute
    exact ⟨other.callee, i, hid⟩

theorem sameCalls_of_reportsOnly (hshort : FindsRoutes frontend shortPath 0 short shortUnits)
    (hlong : FindsRoutes frontend longPath 0 long longUnits)
    (hdiff : IsDiff shortUnits longUnits change ids f)
    (honly : ReportsOnly (ids.filterMap f) change route.representation) : SameCalls short long := by
  intro i x y hx hy
  have hshortUnit : comparedUnit .go shortUnits (routeIdentity x.callee i) =
      some (routeUnit frontend shortPath x i) := by
    rw [hshort.comparedUnit_eq, routeAt_of_some hx, if_pos rfl]
  have hlongUnit := hlong.comparedUnit_eq x.callee i
  rw [routeAt_of_some hy] at hlongUnit
  cases hreport : f (routeIdentity x.callee i) with
  | none =>
      have hsame := (hdiff.none_iff _).mp hreport
      rw [hshortUnit, hlongUnit] at hsame
      split at hsame
      · rename_i hcallee
        exact (Registration.representation_eq_iff hcallee.symm).mp (Option.some.inj hsame)
      · cases hsame
  | some report =>
      -- the registration of the shorter version at this place is not the one that is new, or gone
      have hother : report.changeType ≠ change ∧ report.isRoute = true := by
        have hcases := hdiff.callReport _ _ hreport
        rw [hshortUnit, hlongUnit] at hcases
        split at hcases
        · obtain _ | _ | ⟨hchange, -, hkind | hkind⟩ := hcases
          · exact ⟨hchange, decide_eq_true hkind⟩
          · exact ⟨hchange, decide_eq_true hkind⟩
        · obtain _ | ⟨hchange, hkind⟩ := hcases
          exact ⟨hchange, decide_eq_true hkind⟩
      obtain ⟨single, hsingle, hcall⟩ := honly.single
      have hmem : report ∈ (ids.filterMap f).filter StructuralChange.isRoute := by
        refine List.mem_filter.mpr ⟨List.mem_filterMap.mpr ⟨_, hdiff.mem _ ?_, hreport⟩, hother.2⟩
        rw [hreport]
        exact Option.some_ne_none report
      rw [hsingle, List.mem_singleton] at hmem
      rw [hmem] at hother
      exact absurd hcall.changeType hother.1

/-- What stands at the place that the longer version has more is reported. -/
theorem exists_last_report (hshort : FindsRoutes frontend shortPath 0 short shortUnits)
    (hlong : FindsRoutes frontend longPath 0 long longUnits)
    (hdiff : IsDiff shortUnits longUnits change ids f) {last : RouteRegistration}
    (hlast : long[short.length]? = some last) : ∃ report,
      f (routeIdentity last.callee short.length) = some report ∧ report.isRoute = true ∧
        ReportsCall report change last.representation ∧ report.autoFixEligible = false := by
  have hshortUnit : comparedUnit .go shortUnits (routeIdentity last.callee short.length) = none := by
    rw [hshort.comparedUnit_eq, routeAt_of_none (List.getElem?_eq_none (Nat.le_refl _))]
  have hlongUnit : comparedUnit .go longUnits (routeIdentity last.callee short.length) =
      some (routeUnit frontend longPath last short.length) := by
    rw [hlong.comparedUnit_eq, routeAt_of_some hlast, if_pos rfl]
  cases hreport : f (routeIdentity last.callee short.length) with
  | none =>
      have hsame := (hdiff.none_iff _).mp hreport
      rw [hshortUnit, hlongUnit] at hsame
      cases hsame
  | some report =>
      have hcases := hdiff.callReport _ _ hreport
      rw [hshortUnit, hlongUnit] at hcases
      obtain ⟨hreports, heligible, hkind⟩ := hcases
      exact ⟨report, rfl, decide_eq_true hkind, hreports, heligible⟩

/-- Only the place that the longer version has more is reported. -/
theorem eq_last_of_report (hshort : FindsRoutes frontend shortPath 0 short shortUnits)
    (hlong : FindsRoutes frontend longPath 0 long longUnits)
    (hdiff : IsDiff shortUnits longUnits change ids f) (hsame : SameCalls short long)
    (hlength : long.length = short.length + 1) {last : RouteRegistration}
    (hlast : long[short.length]? = some last) {id : Text} {report : StructuralChange}
    (hreport : f id = some report) (hroute : report.isRoute = true) :
    id = routeIdentity last.callee short.length := by
  obtain ⟨callee, i, rfl⟩ := exists_routeIdentity hshort hlong hdiff hreport hroute
  have hdiffer := mt (hdiff.none_iff (routeIdentity callee i)).mpr (by simp [hreport])
  rw [hshort.comparedUnit_eq, hlong.comparedUnit_eq] at hdiffer
  cases hx : short[i]? with
  | some x =>
      obtain ⟨y, hy⟩ : ∃ y, long[i]? = some y := by
        refine ⟨_, List.getElem?_eq_getElem ?_⟩
        have hbound := (List.getElem?_eq_some_iff.mp hx).1
        omega
      have hcall : x.call = y.call := hsame i x y hx hy
      have hcallee : x.callee = y.callee := (Prod.mk.inj hcall).1
      have hrepresentation := (Registration.representation_eq_iff hcallee).mpr hcall
      rw [routeAt_of_some hx, routeAt_of_some hy, hcallee] at hdiffer
      refine absurd ?_ hdiffer
      split
      · exact congrArg some hrepresentation
      · rfl
  | none =>
      rw [routeAt_of_none hx] at hdiffer
      cases hy : long[i]? with
      | none =>
          rw [routeAt_of_none hy] at hdiffer
          exact absurd rfl hdiffer
      | some y =>
          have hi : i = short.length := by
            have hle := List.getElem?_eq_none_iff.mp hx
            have hlt := (List.getElem?_eq_some_iff.mp hy).1
            omega
          subst hi
          obtain rfl := Option.some.inj (hlast.symm.trans hy)
          rw [routeAt_of_some hy] at hdiffer
          split at hdiffer
          · rename_i hcallee
            rw [hcallee]
          · exact absurd rfl hdiffer

theorem reportsOnly_of_sameCalls (hchange : change ≠ .modified)
    (hshort : FindsRoutes frontend shortPath 0 short shortUnits)
    (hlong : FindsRoutes frontend longPath 0 long longUnits)
    (hdiff : IsDiff shortUnits longUnits change ids f) (hsame : SameCalls short long)
    (hlength : long.length = short.length + 1) {last : RouteRegistration}
    (hlast : long[short.length]? = some last) :
    ReportsOnly (ids.filterMap f) change last.representation := by
  obtain ⟨report, hreport, hroute, hcall, heligible⟩ := exists_last_report hshort hlong hdiff hlast
  have hsingle : (ids.filterMap f).filter StructuralChange.isRoute = [report] := by
    rw [List.filter_filterMap]
    have hsome : f (routeIdentity last.callee short.length) ≠ none := by
      rw [hreport]
      exact Option.some_ne_none report
    refine filterMap_eq_singleton hdiff.nodup (hdiff.mem _ hsome) ?_ fun id _ hne => ?_
    · rw [hreport, Option.filter_some, if_pos hroute]
    · refine Option.filter_eq_none_iff.mpr fun other hother hisRoute => hne ?_
      exact eq_last_of_report hshort hlong hdiff hsame hlength hlast hother hisRoute
  refine ⟨⟨report, hsingle, hcall⟩, fun other hother hisRoute => ?_⟩
  have hmem := List.mem_filter.mpr ⟨hother, hisRoute⟩
  rw [hsingle, List.mem_singleton] at hmem
  rw [hmem]
  exact ⟨fun hmodified => hchange (hcall.changeType.symm.trans hmodified), heligible⟩

variable {front back : List Registration}

theorem sameCalls_iff (hshort : short.map RouteRegistration.toRegistration = front ++ back)
    (hlong : long.map RouteRegistration.toRegistration = front ++ route :: back) :
    SameCalls short long ↔ ∀ other ∈ back, other.call = route.call := by
  rw [← @aligned_iff _ _ Registration.call front, ← hshort, ← hlong]
  simp only [List.getElem?_map, Option.map_eq_some_iff, SameCalls]
  constructor
  · rintro hsame i _ _ ⟨x, hx, rfl⟩ ⟨y, hy, rfl⟩
    exact hsame i x y hx hy
  · exact fun haligned i x y hx hy => haligned i _ _ ⟨x, hx, rfl⟩ ⟨y, hy, rfl⟩

/-- The last of the longer version makes the call of the one it has more, if those behind that do. -/
theorem exists_last (hshort : short.map RouteRegistration.toRegistration = front ++ back)
    (hlong : long.map RouteRegistration.toRegistration = front ++ route :: back)
    (hback : ∀ other ∈ back, other.call = route.call) :
    long.length = short.length + 1 ∧
      ∃ last, long[short.length]? = some last ∧ last.representation = route.representation := by
  have hshortLength := congrArg List.length hshort
  have hlongLength := congrArg List.length hlong
  rw [List.length_map, List.length_append] at hshortLength
  rw [List.length_map, List.length_append, List.length_cons] at hlongLength
  have hbound : short.length < long.length := by omega
  refine ⟨by omega, long[short.length], List.getElem?_eq_getElem hbound, ?_⟩
  have hplace : (front ++ route :: back)[short.length]? = some long[short.length].toRegistration := by
    rw [← hlong, List.getElem?_map, List.getElem?_eq_getElem hbound]
    rfl
  have hcall : long[short.length].call = route.call := by
    rw [List.getElem?_append_right (by omega)] at hplace
    obtain hroute | hmem := List.mem_cons.mp (List.mem_of_getElem? hplace)
    · rw [hroute]
    · exact hback _ hmem
  exact (Registration.representation_eq_iff (Prod.mk.inj hcall).1).mpr hcall

theorem reportsOnly_iff (hchange : change ≠ .modified)
    (hshort : FindsRoutes frontend shortPath 0 short shortUnits)
    (hlong : FindsRoutes frontend longPath 0 long longUnits)
    (hshortRoutes : short.map RouteRegistration.toRegistration = front ++ back)
    (hlongRoutes : long.map RouteRegistration.toRegistration = front ++ route :: back)
    (hdiff : IsDiff shortUnits longUnits change ids f) :
    ReportsOnly (ids.filterMap f) change route.representation ↔
      ∀ other ∈ back, other.call = route.call := by
  rw [← sameCalls_iff hshortRoutes hlongRoutes]
  constructor
  · exact fun honly => sameCalls_of_reportsOnly hshort hlong hdiff honly
  · intro hsame
    have hback := (sameCalls_iff hshortRoutes hlongRoutes).mp hsame
    obtain ⟨hlength, last, hlast, hrepresentation⟩ := exists_last hshortRoutes hlongRoutes hback
    rw [← hrepresentation]
    exact reportsOnly_of_sameCalls hchange hshort hlong hdiff hsame hlength hlast

end Edit

/-! ### Files -/

/-- One registration is put in between others, or taken out. -/
inductive RouteEdit (route : Registration) (front back : List Registration) :
    ChangeType → List Registration → List Registration → Prop where
  | added : RouteEdit route front back .added (front ++ back) (front ++ route :: back)
  | removed : RouteEdit route front back .removed (front ++ route :: back) (front ++ back)

section Files

variable {frontend : Frontend} {delta : SourceFileDelta} {oldUnits newUnits : List StructuralUnit}

theorem nodup_identities : (identities oldUnits newUnits).Nodup :=
  (List.perm_insertionSort _ _).nodup_iff.mpr (List.nodup_dedup _)

/-- An identity of which something is reported is one of a version. -/
theorem mem_identities_of_report {identity : Text} (hreport : diffIdentity frontend delta identity
      (last? StructuralUnit.identity oldUnits identity) (last? StructuralUnit.identity newUnits identity) ≠
        none) : identity ∈ identities oldUnits newUnits := by
  by_contra hmem
  rw [mem_identities, not_or] at hmem
  rw [last?_eq_none hmem.1, last?_eq_none hmem.2] at hreport
  exact hreport rfl

theorem isDiff_added : IsDiff oldUnits newUnits .added
    (identities (listUnits .go oldUnits) (listUnits .go newUnits)) fun identity =>
      diffIdentity frontend delta identity
        (last? StructuralUnit.identity (listUnits .go oldUnits) identity)
        (last? StructuralUnit.identity (listUnits .go newUnits) identity) where
  nodup := nodup_identities
  mem := fun _ hreport => mem_identities_of_report hreport
  none_iff := by
    intro identity
    rw [diffIdentity_eq_none_iff, last?_listUnits, last?_listUnits]
  callReport := by
    intro identity report hreport
    rw [last?_listUnits, last?_listUnits] at hreport
    exact callReport_added hreport

theorem isDiff_removed : IsDiff newUnits oldUnits .removed
    (identities (listUnits .go oldUnits) (listUnits .go newUnits)) fun identity =>
      diffIdentity frontend delta identity
        (last? StructuralUnit.identity (listUnits .go oldUnits) identity)
        (last? StructuralUnit.identity (listUnits .go newUnits) identity) where
  nodup := nodup_identities
  mem := fun _ hreport => mem_identities_of_report hreport
  none_iff := by
    intro identity
    rw [diffIdentity_eq_none_iff, last?_listUnits, last?_listUnits, eq_comm]
  callReport := by
    intro identity report hreport
    rw [last?_listUnits, last?_listUnits] at hreport
    exact callReport_removed hreport

variable {parser : GoParser} {source : Text} {routes : List RouteRegistration}

theorem exists_extractSide (hroutes : goRegistrations parser source = some routes) (path : Option Text)
    (displayPath : Text) : ∃ shown units, FindsRoutes frontend shown 0 routes units ∧
      extractSide (withGo frontend parser) .go path displayPath (some source) =
        .ok (listUnits .go units) := by
  obtain ⟨units, hunits, hfinds⟩ := exists_extractGoUnits hroutes
  refine ⟨(orPath path none).getD displayPath, units, hfinds, ?_⟩
  have hfound : foundUnits (withGo frontend parser) .go ((orPath path none).getD displayPath) source =
      .ok units := hunits
  rw [extractSide, extractUnits, hfound]

end Files

/-- The diff of two versions that differ in one registration reports this one alone exactly if each
registration behind it makes the same call. -/
theorem routeDiff_minimal_iff (frontend : Frontend) (parser : GoParser) (delta : SourceFileDelta)
    {oldText newText : Text} {oldRoutes newRoutes : List RouteRegistration}
    {front back : List Registration} {route : Registration} {change : ChangeType}
    (hgo : delta.language = .go)
    (holdText : delta.oldText = some oldText) (hnewText : delta.newText = some newText)
    (hold : goRegistrations parser oldText = some oldRoutes)
    (hnew : goRegistrations parser newText = some newRoutes)
    (hedit : RouteEdit route front back change (oldRoutes.map RouteRegistration.toRegistration)
      (newRoutes.map RouteRegistration.toRegistration)) :
    (∃ changes, deltaChanges (withGo frontend parser) delta = .ok changes ∧
        ReportsOnly changes change route.representation) ↔
      ∀ other ∈ back, other.call = route.call := by
  obtain ⟨oldPath, oldUnits, holdFinds, holdSide⟩ :=
    @exists_extractSide frontend parser _ _ hold delta.oldPath delta.displayPath
  obtain ⟨newPath, newUnits, hnewFinds, hnewSide⟩ :=
    @exists_extractSide frontend parser _ _ hnew delta.newPath delta.displayPath
  rw [← hgo, ← holdText] at holdSide
  rw [← hgo, ← hnewText] at hnewSide
  have hchanges := deltaChanges_of_extractSide holdSide hnewSide
  rw [hchanges, hgo]
  have hsome : ∀ {changes : List StructuralChange} {P : List StructuralChange → Prop},
      (∃ found, (Except.ok changes : Except ExtractError _) = .ok found ∧ P found) ↔ P changes := by
    intro changes P
    exact ⟨fun ⟨found, heq, hP⟩ => Except.ok.inj heq ▸ hP, fun hP => ⟨changes, rfl, hP⟩⟩
  rw [hsome]
  generalize holdRoutes : oldRoutes.map RouteRegistration.toRegistration = oldList at hedit
  generalize hnewRoutes : newRoutes.map RouteRegistration.toRegistration = newList at hedit
  cases hedit with
  | added =>
      exact reportsOnly_iff ChangeType.noConfusion holdFinds hnewFinds holdRoutes hnewRoutes isDiff_added
  | removed =>
      exact reportsOnly_iff ChangeType.noConfusion hnewFinds holdFinds hnewRoutes holdRoutes
        isDiff_removed

/-! ### A route in front of another -/

section Mux

/-- A call `mux.HandleFunc(route, handler)`. -/
structure MuxCall where
  route : Text
  handler : Text
  deriving DecidableEq

def MuxCall.line (call : MuxCall) : Text :=
  "\tmux.HandleFunc(".toList ++ call.route ++ ", ".toList ++ call.handler ++ ")\n".toList

def muxSource (calls : List MuxCall) : Text :=
  "package main\n\nfunc main() \x7b\n".toList ++ calls.flatMap MuxCall.line ++ "\x7d\n".toList

def muxNode (type : String) (field : Option String) (lineStart row start stop endRow : Nat)
    (children : List GoNode) : GoNode :=
  .node {
    type := type.toList
    field := field.map String.toList
    isNamed := true
    isMissing := false
    startByte := start
    endByte := stop
    startRow := row
    startColumn := start - lineStart
    endRow := endRow } children

/-- The statement of a call whose line has the given start. -/
def muxStatement (lineStart row : Nat) (call : MuxCall) : GoNode :=
  let start := lineStart + 1
  let args := start + "mux.HandleFunc".length
  let comma := args + 1 + call.route.length
  let close := comma + 2 + call.handler.length
  let node := fun type field start stop children => muxNode type field lineStart row start stop row children
  node "expression_statement" none start (close + 1) [
    node "call_expression" none start (close + 1) [
      node "selector_expression" (some "function") start args [
        node "identifier" (some "operand") start (start + 3) [],
        node "field_identifier" (some "field") (start + 4) args []],
      node "argument_list" (some "arguments") args (close + 1) [
        node "interpreted_string_literal" none (args + 1) comma [],
        node "identifier" none (comma + 2) close []]]]

def muxStatements : Nat → Nat → List MuxCall → List GoNode
  | _, _, [] => []
  | lineStart, row, call :: calls =>
      muxStatement lineStart row call :: muxStatements (lineStart + call.line.length) (row + 1) calls

def muxTree (calls : List MuxCall) : GoTree :=
  let stop := (muxSource calls).length
  let lastRow := calls.length + 3
  { rootNode := muxNode "source_file" none 0 0 0 stop (lastRow + 1) [
      muxNode "package_clause" none 0 0 0 12 0 [muxNode "package_identifier" none 0 0 8 12 0 []],
      muxNode "function_declaration" none 14 2 14 (stop - 1) lastRow [
        muxNode "identifier" (some "name") 14 2 19 23 2 [],
        muxNode "parameter_list" (some "parameters") 14 2 23 25 2 [],
        muxNode "block" (some "body") 14 2 26 (stop - 1) lastRow
          [muxNode "statement_list" none 28 3 29 (stop - 3) (lastRow - 1) (muxStatements 28 3 calls)]]]
    hasError := false }

def usersCall : MuxCall := ⟨"\"/users\"".toList, "users".toList⟩

def healthCall : MuxCall := ⟨"\"/health\"".toList, "health".toList⟩

/-- The parser on the files of these calls. -/
def muxParser : GoParser := some fun source =>
  match [[usersCall], [healthCall, usersCall], [usersCall, healthCall]].find? fun calls =>
      muxSource calls = source with
  | some calls => muxTree calls
  | none => ⟨muxNode "ERROR" none 0 0 0 source.length 0 [], true⟩

def MuxCall.registration (call : MuxCall) : Registration :=
  ⟨"mux.HandleFunc".toList, [call.route, call.handler]⟩

def muxDelta (calls newCalls : List MuxCall) : SourceFileDelta where
  status := "M".toList
  oldPath := some "cmd/main.go".toList
  newPath := some "cmd/main.go".toList
  oldText := some (muxSource calls)
  newText := some (muxSource newCalls)
  language := .go

def muxRoutes (calls : List MuxCall) : List RouteRegistration :=
  (goRegistrations muxParser (muxSource calls)).getD []

theorem muxRoutes_users :
    (muxRoutes [usersCall]).map RouteRegistration.toRegistration = [usersCall.registration] := by
  decide +kernel

/-- A route behind the other is reported alone. -/
theorem routeDiff_minimal_iff_behind : ∃ changes,
    deltaChanges (withGo propertyFrontend muxParser) (muxDelta [usersCall] [usersCall, healthCall]) =
        .ok changes ∧
      ReportsOnly changes .added healthCall.registration.representation := by
  have hold : goRegistrations muxParser (muxSource [usersCall]) = some (muxRoutes [usersCall]) := by
    decide +kernel
  have hnew : goRegistrations muxParser (muxSource [usersCall, healthCall]) =
      some (muxRoutes [usersCall, healthCall]) := by
    decide +kernel
  have hnewRoutes : (muxRoutes [usersCall, healthCall]).map RouteRegistration.toRegistration =
      [usersCall.registration] ++ [healthCall.registration] := by
    decide +kernel
  have hedit : RouteEdit healthCall.registration [usersCall.registration] [] .added
      ((muxRoutes [usersCall]).map RouteRegistration.toRegistration)
      ((muxRoutes [usersCall, healthCall]).map RouteRegistration.toRegistration) := by
    rw [muxRoutes_users, hnewRoutes]
    exact .added
  exact (routeDiff_minimal_iff propertyFrontend muxParser
    (muxDelta [usersCall] [usersCall, healthCall]) rfl rfl rfl hold hnew hedit).mpr
      fun other hother => absurd hother List.not_mem_nil

/-- In front of the other it is not: the one is reported as modified, the other as new. -/
theorem not_reportsOnly_in_front :
    (muxRoutes [usersCall]).map RouteRegistration.toRegistration = [usersCall.registration] ∧
      (muxRoutes [healthCall, usersCall]).map RouteRegistration.toRegistration =
        [healthCall.registration, usersCall.registration] ∧
      ¬ ∃ changes,
        deltaChanges (withGo propertyFrontend muxParser)
            (muxDelta [usersCall] [healthCall, usersCall]) = .ok changes ∧
          ReportsOnly changes .added healthCall.registration.representation := by
  refine ⟨muxRoutes_users, by decide +kernel, ?_⟩
  intro ⟨changes, hchanges, honly⟩
  have hshown : (deltaChanges (withGo propertyFrontend muxParser)
      (muxDelta [usersCall] [healthCall, usersCall])).map (fun changes =>
        (changes.filter StructuralChange.isRoute).map StructuralChange.changeType) =
          .ok [.modified, .added] := by
    decide +kernel
  obtain ⟨report, hsingle, -⟩ := honly.single
  rw [hchanges] at hshown
  have htypes : (changes.filter StructuralChange.isRoute).map StructuralChange.changeType = _ :=
    Except.ok.inj hshown
  rw [hsingle] at htypes
  exact absurd (congrArg List.length htypes) (by simp)

end Mux

end CoreMesh.SelfHealingDocs
