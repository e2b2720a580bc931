import Harmony.RouteAnswer
import Harmony.RouteParams
import Mathlib.Data.List.TakeWhile

/-!
# Parameters by their names

The router reads a registered path level by level, and a level in braces is a
parameter with the name that stands in front of its colon. `get_param` reads the
same path again by a rule of its own: it goes from brace to brace, counts them,
and stops at the first one that has the label right behind it. The two agree as
long as every brace is that of a parameter and no name is met that merely starts
with the label.

`HttpRouter.getsParam_iff` says for which paths and labels they do: in front of
the first brace with the label behind it there have to be as many braces as there
are parameters in front of the first one of that name. For any other path and
label there is a request that is dispatched and gets something else.
-/

open RouteNodeData (captured captures)

namespace HttpRouter

/-! ## The text of a route -/

/-- **What stands in front of the first brace with the label behind it**: there is
such a brace behind it, and none earlier. -/
def FirstBehind (label before route : Bytes) : Prop :=
  (∃ after, route = before ++ 123 :: after ∧ label <+: after)
    ∧ ∀ before' after', route = before' ++ 123 :: after' →
      before'.length < before.length → ¬ label <+: after'

/-- A text that starts with no brace has its first one further on. -/
theorem FirstBehind.cons {label before route : Bytes} {c : UInt8}
    (hc : ¬ (c = 123 ∧ label <+: route)) (h : FirstBehind label before route) :
    FirstBehind label (c :: before) (c :: route) := by
  obtain ⟨⟨after, rfl, hafter⟩, hfirst⟩ := h
  refine ⟨⟨after, rfl, hafter⟩, fun before' after' heq hlt hprefix => ?_⟩
  cases before' with
  | nil =>
    obtain ⟨rfl, rfl⟩ := List.cons.inj heq
    exact hc ⟨rfl, hprefix⟩
  | cons c' before' =>
    exact hfirst before' after' (List.cons.inj heq).2
      (Nat.lt_of_succ_lt_succ hlt) hprefix

/-- **The search of `get_param`** counts the braces in front of the first one that
has the label behind it, if there is one. -/
theorem findParam_spec (label : Bytes) (index : ℕ) (route : Bytes) :
    match findParam label index route with
    | none => ∀ before after, route = before ++ 123 :: after → ¬ label <+: after
    | some i => ∃ before, FirstBehind label before route
        ∧ i = index + before.count 123 := by
  induction route generalizing index with
  | nil =>
    intro before after heq
    exact absurd heq (List.append_ne_nil_of_right_ne_nil _ (List.cons_ne_nil _ _)).symm
  | cons c route ih =>
    rw [findParam]
    by_cases hhere : c = 123 ∧ label <+: route
    · -- the label stands behind this brace
      rw [if_pos hhere.1, if_pos (List.prefix_iff_eq_take.mp hhere.2).symm]
      refine ⟨[], ⟨⟨route, by rw [hhere.1]; rfl, hhere.2⟩, ?_⟩, rfl⟩
      exact fun before' after' _ hlt => absurd hlt (Nat.not_lt_zero _)
    · have hstep : (if c = 123 then
            if route.take label.length = label then some index
            else findParam label (index + 1) route
          else findParam label index route)
          = findParam label (index + [c].count 123) route := by
        by_cases hc : c = 123
        · have hlabel : ¬ route.take label.length = label := fun h =>
            hhere ⟨hc, List.prefix_iff_eq_take.mpr h.symm⟩
          rw [if_pos hc, if_neg hlabel, hc, List.count_singleton_self]
        · rw [if_neg hc, List.count_singleton, if_neg (by simpa using hc),
            Nat.add_zero]
      rw [hstep]
      have hspec := ih (index + [c].count 123)
      cases hfind : findParam label (index + [c].count 123) route with
      | none =>
        rw [hfind] at hspec
        intro before after heq hprefix
        cases before with
        | nil =>
          obtain ⟨rfl, rfl⟩ := List.cons.inj heq
          exact hhere ⟨rfl, hprefix⟩
        | cons c' before => exact hspec before after (List.cons.inj heq).2 hprefix
      | some i =>
        rw [hfind] at hspec
        obtain ⟨before, hfirst, rfl⟩ := hspec
        refine ⟨c :: before, hfirst.cons hhere, ?_⟩
        rw [← List.singleton_append (l := before), List.count_append, Nat.add_assoc]

/-- There is one first brace at most. -/
theorem FirstBehind.eq {label before before' route : Bytes}
    (h : FirstBehind label before route) (h' : FirstBehind label before' route) :
    before = before' := by
  obtain ⟨⟨after, heq, hafter⟩, hfirst⟩ := h
  obtain ⟨⟨after', heq', hafter'⟩, hfirst'⟩ := h'
  have hlength : before.length = before'.length :=
    le_antisymm (not_lt.mp fun hlt => hfirst _ _ heq' hlt hafter')
      (not_lt.mp fun hlt => hfirst' _ _ heq hlt hafter)
  exact (List.append_inj (heq.symm.trans heq') hlength).1

/-- The search finds the place of the first brace. -/
theorem findParam_of_firstBehind {label before route : Bytes}
    (h : FirstBehind label before route) :
    findParam label 0 route = some (before.count 123) := by
  have hspec := findParam_spec label 0 route
  cases hfind : findParam label 0 route with
  | none =>
    rw [hfind] at hspec
    obtain ⟨after, heq, hafter⟩ := h.1
    exact absurd hafter (hspec before after heq)
  | some i =>
    rw [hfind] at hspec
    obtain ⟨before', hfirst, rfl⟩ := hspec
    rw [h.eq hfirst, Nat.zero_add]

end HttpRouter

/-- A level is a part of its path. -/
theorem infix_of_mem_levelsOf {level rest : Bytes} (h : level ∈ levelsOf rest) :
    level <:+: rest := by
  induction hk : rest.length using Nat.strong_induction_on
    generalizing rest with
  | _ k ih =>
    by_cases hrest : rest = []
    · rw [hrest] at h
      exact absurd h List.not_mem_nil
    · rw [levelsOf_eq hrest, List.mem_cons] at h
      rcases h with rfl | h
      · exact (List.takeWhile_prefix _).isInfix
      · have hafter : afterLevel rest <:+ rest :=
          (List.tail_suffix _).trans (List.dropWhile_suffix _)
        exact (ih _ (hk ▸ length_afterLevel_lt hrest) h rfl).trans
          hafter.isInfix

/-- A level has no slash in it. -/
theorem slash_notMem_of_mem_levelsOf {level rest : Bytes}
    (h : level ∈ levelsOf rest) : slash ∉ level := by
  induction hk : rest.length using Nat.strong_induction_on
    generalizing rest with
  | _ k ih =>
    by_cases hrest : rest = []
    · rw [hrest] at h
      exact absurd h List.not_mem_nil
    · rw [levelsOf_eq hrest, List.mem_cons] at h
      rcases h with rfl | h
      · intro hslash
        simpa using List.mem_takeWhile_imp hslash
      · exact ih _ (hk ▸ length_afterLevel_lt hrest) h rfl

/-- A level ends at the first slash. -/
theorem levelsOf_append_slash {level : Bytes} (h : slash ∉ level)
    (rest : Bytes) :
    levelsOf (level ++ slash :: rest) = level :: levelsOf rest := by
  induction level with
  | nil => exact if_pos rfl
  | cons b level ih =>
    obtain ⟨hb, hlevel⟩ := List.ne_and_not_mem_of_not_mem_cons h
    rw [List.cons_append, levelsOf, if_neg hb.symm, ih hlevel]

/-- **The levels that are written down are those that are read.** -/
theorem levelsOf_flatMap {levels : List Bytes}
    (h : ∀ level ∈ levels, slash ∉ level) :
    levelsOf (levels.flatMap fun level => level ++ [slash]) = levels := by
  induction levels with
  | nil => rfl
  | cons level levels ih =>
    obtain ⟨hlevel, hlevels⟩ := List.forall_mem_cons.mp h
    rw [List.flatMap_cons, List.append_assoc, List.singleton_append,
      levelsOf_append_slash hlevel, ih hlevels]

namespace RouteNodeData

/-- **The name of a parameter** stands behind the brace that opens its level. -/
theorem exists_of_isParam {level : Bytes} (h : (ofLevel level).isParam = true) :
    ∃ rest, level = 123 :: rest ∧ (ofLevel level).label <+: rest := by
  by_cases hbraces : level.head? = some 123 ∧ level.getLast? = some 125
  · obtain ⟨rest, rfl⟩ := List.head?_eq_some_iff.mp hbraces.1
    refine ⟨rest, rfl, ?_⟩
    have hslice : ∀ n, slice (123 :: rest) 1 n <+: rest :=
      fun n => List.take_prefix n rest
    rw [ofLevel, if_pos hbraces]
    dsimp only
    split <;> exact hslice _
  · rw [ofLevel, if_neg hbraces] at h
    exact absurd h Bool.false_ne_true

/-- A level that is no parameter is its own label. -/
theorem label_ofLevel {level : Bytes} (h : (ofLevel level).isParam = false) :
    (ofLevel level).label = level := by
  by_cases hbraces : level.head? = some 123 ∧ level.getLast? = some 125
  · rw [ofLevel, if_pos hbraces] at h
    dsimp only at h
    split at h
    · exact absurd h.symm Bool.false_ne_true
    · split_ifs at h <;> exact absurd h.symm Bool.false_ne_true
  · rw [ofLevel, if_neg hbraces]

/-- What is captured belongs to the parameters of the pattern, one after the
other. -/
theorem map_fst_captured (k : List RouteNodeData) (levels : List Bytes) :
    (captured k levels).map Prod.fst = k.filter isParam := by
  induction k generalizing levels with
  | nil => rfl
  | cons d k ih =>
    rw [captured, List.map_append, ih, List.filter_cons, capture]
    split_ifs <;> rfl

/-! ## A request that tells the parameters apart -/

/-- **Levels that fit a pattern** and have another value for each parameter:
ones, and one more of them for each level. -/
def probe (n : ℕ) : List RouteNodeData → List Bytes
  | [] => []
  | d :: k =>
    (if d.isParam then List.replicate (n + 1) 49 else d.label)
      :: probe (n + 1) k

/-- The pattern allows for its probe. -/
theorem allows_probe {k : List RouteNodeData} (h : ∀ d ∈ k, d.type ≠ .root)
    (n : ℕ) : List.Forall₂ Allows k (probe n k) := by
  induction k generalizing n with
  | nil => exact .nil
  | cons d k ih =>
    obtain ⟨hd, hk⟩ := List.forall_mem_cons.mp h
    refine .cons ?_ (ih hk (n + 1))
    have hones : ∀ ch ∈ List.replicate (n + 1) (49 : UInt8),
        isDigit ch = true := by
      intro ch hch
      rw [List.eq_of_mem_replicate hch]
      rfl
    unfold Allows isParam
    cases htype : d.type with
    | root => exact absurd htype hd
    | constant => exact Or.inr rfl
    | paramInt => exact hones
    | paramFloat =>
      refine ⟨fun ch hch => Or.inl (hones ch hch), ?_⟩
      exact (List.count_eq_zero.mpr fun hdot =>
        absurd (List.eq_of_mem_replicate hdot) (by decide)).trans_le zero_le_one
    | paramString => trivial

/-- The values at the levels from one on are longer than those before. -/
theorem lt_length_of_mem_captured_probe {k : List RouteNodeData}
    (h : ∀ d ∈ k, d.type ≠ .root) (n : ℕ) {p : RouteNodeData × Bytes}
    (hp : p ∈ captured k (probe n k)) : n < p.2.length := by
  induction k generalizing n with
  | nil => exact absurd hp List.not_mem_nil
  | cons d k ih =>
    obtain ⟨hd, hk⟩ := List.forall_mem_cons.mp h
    rw [captured, probe, List.headD_cons, levelsBehind, if_neg hd,
      List.tail_cons, List.mem_append, capture] at hp
    rcases hp with hp | hp
    · split_ifs at hp with hparam
      · rw [List.mem_singleton.mp hp, List.length_replicate]
        exact n.lt_succ_self
      · exact absurd hp List.not_mem_nil
    · exact n.lt_succ_self.trans (ih hk (n + 1) hp)

/-- **No value is captured twice** of a probe. -/
theorem nodup_captured_probe {k : List RouteNodeData}
    (h : ∀ d ∈ k, d.type ≠ .root) (n : ℕ) :
    ((captured k (probe n k)).map Prod.snd).Nodup := by
  induction k generalizing n with
  | nil => exact List.nodup_nil
  | cons d k ih =>
    obtain ⟨hd, hk⟩ := List.forall_mem_cons.mp h
    rw [captured, probe, List.headD_cons, levelsBehind, if_neg hd,
      List.tail_cons, capture]
    split_ifs with hparam
    · refine List.nodup_cons.mpr ⟨fun hmem => ?_, ih hk (n + 1)⟩
      obtain ⟨p, hp, hvalue⟩ := List.mem_map.mp hmem
      have hlt := lt_length_of_mem_captured_probe hk (n + 1) hp
      rw [hvalue, List.length_replicate] at hlt
      exact lt_irrefl _ hlt
    · exact ih hk (n + 1)

end RouteNodeData

/-- The probe of a route has no slash in its levels. -/
theorem RouteCall.slash_notMem_probe (c : RouteCall) (n : ℕ) :
    ∀ level ∈ RouteNodeData.probe n c.pattern, slash ∉ level := by
  have hlevels : ∀ level ∈ levelsOf c.routePath.tail, slash ∉ level :=
    fun _ => slash_notMem_of_mem_levelsOf
  rw [RouteCall.pattern]
  generalize levelsOf c.routePath.tail = levels at hlevels
  induction levels generalizing n with
  | nil => exact fun level hlevel => absurd hlevel List.not_mem_nil
  | cons level levels ih =>
    obtain ⟨hlevel, hlevels⟩ := List.forall_mem_cons.mp hlevels
    rw [List.map_cons, RouteNodeData.probe, List.forall_mem_cons]
    refine ⟨?_, ih (n + 1) hlevels⟩
    cases hparam : (RouteNodeData.ofLevel level).isParam with
    | true =>
      intro hslash
      exact absurd (List.eq_of_mem_replicate hslash) (by decide)
    | false => rwa [if_neg Bool.false_ne_true, RouteNodeData.label_ofLevel hparam]

namespace HttpRouter

/-- **A request is dispatched to a route**: the index that is called is its
own, and the node that answered is the one of its pattern. -/
structure DispatchedTo (router : HttpRouter) (calls : List RouteCall)
    (m : HttpMethod) (path : Bytes) (c : RouteCall) (vars : List Bytes)
    (index : ℕ) : Prop where
  dispatch : router.dispatchRoute m path = .ok (vars, some index)
  call : calls[index]? = some c
  answered : ∃ w, router.root.way m (levelsOf path.tail) = some w
    ∧ w.pattern = router.root.data :: c.taken.pattern

/-- What is captured of a path by the parameters of a route. -/
def routeCaptures (c : RouteCall) (path : Bytes) :
    List (RouteNodeData × Bytes) :=
  captured c.taken.pattern (levelsOf path.tail)

/-- **The value of a parameter**: what the first parameter of the name has
captured. -/
def paramValue (label : Bytes) (captures : List (RouteNodeData × Bytes)) :
    Option Bytes :=
  (captures.find? fun p => p.1.label = label).map Prod.snd

/-- **The parameters of a route**, in their order. -/
def params (c : RouteCall) : List RouteNodeData :=
  c.taken.pattern.filter RouteNodeData.isParam

/-- **The braces count to the right place**: if there is a brace with the label
behind it, then there is a parameter of that name, and in front of the first such
brace there are as many as there are parameters in front of the first one of that
name. -/
def CountsRight (c : RouteCall) (label : Bytes) : Prop :=
  ∀ before, FirstBehind label before c.routePath →
    ∃ earlier d later, params c = earlier ++ d :: later ∧ d.label = label
      ∧ (∀ e ∈ earlier, e.label ≠ label)
      ∧ before.count 123 = earlier.length

/-- **`get_param` finds the value of a parameter**, in every request that any
router dispatches to the route. -/
def GetsParam (c : RouteCall) (label : Bytes) : Prop :=
  ∀ (u : Uninit) (calls : List RouteCall) (router : HttpRouter),
    (new u).addRoutes u calls = .ok router →
    ∀ (m : HttpMethod) (path : Bytes) (vars : List Bytes) (index : ℕ),
      router.DispatchedTo calls m path c vars index →
      router.getParam vars index label
        = .ok (paramValue label (routeCaptures c path))

/-- **A parameter has a brace in the route** that its name stands behind. -/
theorem exists_brace {c : RouteCall} {d : RouteNodeData} (h : d ∈ params c) :
    ∃ before after, c.routePath = before ++ 123 :: after
      ∧ d.label <+: after := by
  obtain ⟨hmem, hparam⟩ := List.mem_filter.mp h
  by_cases htaken : (levelsOf c.routePath.tail).head? = some []
  · rw [RouteCall.taken, if_pos htaken] at hmem
    exact absurd hmem List.not_mem_nil
  · rw [RouteCall.taken, if_neg htaken] at hmem
    obtain ⟨level, hlevel, rfl⟩ := List.mem_map.mp hmem
    obtain ⟨rest, hrest, hlabel⟩ := RouteNodeData.exists_of_isParam hparam
    obtain ⟨before, after, hpath⟩ := (infix_of_mem_levelsOf hlevel).trans
      (List.tail_suffix c.routePath).isInfix
    refine ⟨before, rest ++ after, ?_, hlabel.trans (List.prefix_append rest after)⟩
    rw [← hpath, hrest, List.append_assoc, List.cons_append]

/-- The captured values belong to the parameters, one after the other. -/
theorem map_fst_routeCaptures (c : RouteCall) (path : Bytes) :
    (routeCaptures c path).map Prod.fst = params c :=
  RouteNodeData.map_fst_captured _ _

/-- Without a parameter of the name there is no value. -/
theorem paramValue_eq_none {c : RouteCall} {label : Bytes}
    (h : ∀ d ∈ params c, d.label ≠ label) (path : Bytes) :
    paramValue label (routeCaptures c path) = none := by
  rw [paramValue, Option.map_eq_none_iff, List.find?_eq_none]
  intro p hp hlabel
  refine h p.1 ?_ (of_decide_eq_true hlabel)
  rw [← map_fst_routeCaptures c path]
  exact List.mem_map_of_mem hp

/-- **The value of the first parameter of a name** stands where the parameters in
front of it end. -/
theorem getElem?_of_params {c : RouteCall} {label : Bytes}
    {earlier later : List RouteNodeData} {d : RouteNodeData}
    (hparams : params c = earlier ++ d :: later) (hd : d.label = label)
    (hearlier : ∀ e ∈ earlier, e.label ≠ label) (path : Bytes) :
    ∃ value, paramValue label (routeCaptures c path) = some value
      ∧ ((routeCaptures c path).map Prod.snd)[earlier.length]? = some value := by
  rw [← map_fst_routeCaptures c path, List.map_eq_append_iff] at hparams
  obtain ⟨front, rest, hcaptures, rfl, hrest⟩ := hparams
  obtain ⟨p, back, rfl, rfl, -⟩ := List.map_eq_cons_iff.mp hrest
  refine ⟨p.2, ?_, ?_⟩
  · rw [paramValue, hcaptures, List.find?_append,
      List.find?_eq_none.mpr fun q hq hlabel =>
        hearlier q.1 (List.mem_map_of_mem hq) (of_decide_eq_true hlabel),
      Option.none_or, List.find?_cons, decide_eq_true hd]
    rfl
  · rw [hcaptures, List.map_append, List.length_map,
      List.getElem?_append_right (List.length_map _).le, List.length_map,
      Nat.sub_self]
    rfl

/-- **A dispatched request has what its route captures.** -/
theorem DispatchedTo.vars_eq {u : Uninit} {calls : List RouteCall}
    {router : HttpRouter} (hbuilt : (new u).addRoutes u calls = .ok router)
    {m : HttpMethod} {path : Bytes} {c : RouteCall} {vars : List Bytes}
    {index : ℕ} (h : router.DispatchedTo calls m path c vars index) :
    vars = (routeCaptures c path).map Prod.snd := by
  obtain ⟨-, k, hk, -, hvars⟩ := (matchPath_eq_some_iff hbuilt m path [] _ _).mp
    (matchPath_of_dispatchRoute h.dispatch).1
  obtain ⟨w, hway, hpattern⟩ := h.answered
  have hspec := way_spec hbuilt m (levelsOf path.tail)
  rw [hway] at hspec
  obtain ⟨k', hk', hpattern', -⟩ := hspec
  have heq : k = c.taken.pattern :=
    (hk.eq hk').trans (List.cons.inj (hpattern'.symm.trans hpattern)).2
  rw [hvars, heq]
  rfl

/-- What `get_param` makes of the place it has found. -/
theorem DispatchedTo.getParam_eq {u : Uninit} {calls : List RouteCall}
    {router : HttpRouter} (hbuilt : (new u).addRoutes u calls = .ok router)
    {m : HttpMethod} {path : Bytes} {c : RouteCall} {vars : List Bytes}
    {index : ℕ} (h : router.DispatchedTo calls m path c vars index)
    (label : Bytes) :
    router.getParam vars index label
      = match findParam label 0 c.routePath with
        | none => .ok none
        | some i =>
          match ((routeCaptures c path).map Prod.snd)[i]? with
          | none => .error .indexOutOfRange
          | some value => .ok (some value) := by
  have hroute : router.routePaths[index]? = some c.routePath := by
    rw [(addRoutes_ok (sound_new u) hbuilt).2.2]
    show (calls.map RouteCall.routePath)[index]? = _
    rw [List.getElem?_map, h.call]
    rfl
  rw [getParam, hroute]
  exact h.vars_eq hbuilt ▸ rfl

/-- **Where the braces count to the right place, `get_param` finds the value.** -/
theorem CountsRight.getsParam {c : RouteCall} {label : Bytes}
    (h : CountsRight c label) : GetsParam c label := by
  intro u calls router hbuilt m path vars index hdispatched
  rw [hdispatched.getParam_eq hbuilt]
  have hspec := findParam_spec label 0 c.routePath
  cases hfind : findParam label 0 c.routePath with
  | none =>
    rw [hfind] at hspec
    rw [paramValue_eq_none _ path]
    rintro d hd rfl
    obtain ⟨before, after, heq, hlabel⟩ := exists_brace hd
    exact hspec before after heq hlabel
  | some i =>
    rw [hfind] at hspec
    obtain ⟨before, hfirst, rfl⟩ := hspec
    obtain ⟨earlier, d, later, hparams, hd, hearlier, hcount⟩ := h before hfirst
    obtain ⟨value, hvalue, hget⟩ := getElem?_of_params hparams hd hearlier path
    rw [Nat.zero_add, hcount, hvalue]
    dsimp only
    rw [hget]

/-- The path of a probe. -/
def probePath (c : RouteCall) : Bytes :=
  slash :: (RouteNodeData.probe 0 c.taken.pattern).flatMap
    fun level => level ++ [slash]

theorem levelsOf_probePath (c : RouteCall) :
    levelsOf (probePath c).tail = RouteNodeData.probe 0 c.taken.pattern :=
  levelsOf_flatMap (c.taken.slash_notMem_probe 0)

/-- **The probe of a route is dispatched to it**, by the router that has no other
one. -/
theorem dispatchedTo_probePath {u : Uninit} {c : RouteCall}
    {router : HttpRouter} (hbuilt : (new u).addRoutes u [c] = .ok router) :
    ∃ vars, router.DispatchedTo [c] c.taken.method (probePath c) c vars 0 := by
  have hroutes : takenRoutes [c] = [(c.taken.pattern, c.taken.method, 0)] := rfl
  have hcand : RouteNode.Candidate u .root (takenRoutes [c]) c.taken.method
      (levelsOf (probePath c).tail) c.taken.pattern := by
    rw [levelsOf_probePath, hroutes]
    exact ⟨⟨_, List.mem_singleton_self _⟩,
      open_of_mem u _ (List.mem_singleton_self _),
      RouteNode.fits_of_allows
        (RouteNodeData.allows_probe c.taken.type_ne_root 0)⟩
  have hspec := way_spec hbuilt c.taken.method (levelsOf (probePath c).tail)
  cases hway : router.root.way c.taken.method (levelsOf (probePath c).tail) with
  | none =>
    rw [hway] at hspec
    exact absurd hcand (hspec _)
  | some w =>
    rw [hway] at hspec
    obtain ⟨k, hk, hpattern, -⟩ := hspec
    -- there is one pattern to stop at
    obtain rfl : k = c.taken.pattern := by
      obtain ⟨⟨⟨x, hx⟩, -⟩, -⟩ := hk
      rw [hroutes] at hx
      exact (Prod.mk.inj (List.mem_singleton.mp hx)).1
    have hindex : storedIndex u (takenRoutes [c]) c.taken.method c.taken.pattern
        = 0 := by
      rw [storedIndex, hroutes, lastIndex, List.reverse_singleton,
        List.findSome?_cons, if_pos ⟨rfl, rfl⟩]
      rfl
    have hmatch := (matchPath_eq_some_iff hbuilt c.taken.method (probePath c) []
      0 _).mpr ⟨rfl, _, hk, hindex.symm, rfl⟩
    refine ⟨captures c.taken.pattern (levelsOf (probePath c).tail), ?_, rfl, w,
      hway, hpattern⟩
    have hhandlers := (addRoutes_ok (sound_new u) hbuilt).2.1
    rw [dispatchRoute, hmatch, Except.ok_bind]
    exact if_pos (by rw [hhandlers]; exact Nat.lt_add_left _ Nat.one_pos)

/-- **Only there does it find the value of every request**: the probe has another
value for each parameter, so that a wrong place holds a wrong one. -/
theorem GetsParam.countsRight {u : Uninit} {c : RouteCall} {router : HttpRouter}
    (hbuilt : (new u).addRoutes u [c] = .ok router) {label : Bytes}
    (h : GetsParam c label) : CountsRight c label := by
  intro before hfirst
  obtain ⟨vars, hdispatched⟩ := dispatchedTo_probePath hbuilt
  have hgets := h u [c] router hbuilt _ _ vars 0 hdispatched
  rw [hdispatched.getParam_eq hbuilt, findParam_of_firstBehind hfirst] at hgets
  dsimp only at hgets
  have hnodup : ((routeCaptures c (probePath c)).map Prod.snd).Nodup := by
    rw [routeCaptures, levelsOf_probePath]
    exact RouteNodeData.nodup_captured_probe c.taken.type_ne_root 0
  have hparams := map_fst_routeCaptures c (probePath c)
  generalize routeCaptures c (probePath c) = captures at hgets hnodup hparams
  cases hget : (captures.map Prod.snd)[before.count 123]? with
  | none =>
    rw [hget] at hgets
    cases hgets
  | some value =>
    rw [hget] at hgets
    obtain ⟨p, hfind, hvalue⟩ :=
      Option.map_eq_some_iff.mp (Except.ok.inj hgets).symm
    obtain ⟨hlabel, front, back, rfl, hfront⟩ :=
      List.find?_eq_some_iff_append.mp hfind
    refine ⟨front.map Prod.fst, p.1, back.map Prod.fst, ?_,
      of_decide_eq_true hlabel, ?_, ?_⟩
    · rw [← hparams, List.map_append, List.map_cons]
    · intro e he
      obtain ⟨q, hq, rfl⟩ := List.mem_map.mp he
      exact fun heq => absurd (hfront q hq) (by simp [heq])
    · -- the value at the place of the brace is the one behind `front`
      have hplace : ((front ++ p :: back).map Prod.snd)[front.length]?
          = some value := by
        rw [List.getElem?_map, List.getElem?_append_right le_rfl, Nat.sub_self,
          ← hvalue]
        rfl
      have hlt : before.count 123 < ((front ++ p :: back).map Prod.snd).length :=
        (List.getElem?_eq_some_iff.mp hget).1
      rw [List.length_map]
      exact (List.getElem?_inj hlt hnodup).mp (hget.trans hplace.symm)

/-- **`get_param` finds the value of a parameter exactly where the braces count
to the right place.** -/
theorem getsParam_iff {c : RouteCall}
    (hc : ∃ u router, (new u).addRoutes u [c] = .ok router) (label : Bytes) :
    GetsParam c label ↔ CountsRight c label := by
  obtain ⟨u, router, hbuilt⟩ := hc
  exact ⟨GetsParam.countsRight hbuilt, CountsRight.getsParam⟩

/-- The condition can be read off the two searches, that of `get_param` and that
for the name. -/
theorem countsRight_of_findIdx {c : RouteCall} {label : Bytes}
    (h : findParam label 0 c.routePath
      = (params c).findIdx? fun d => d.label = label) : CountsRight c label := by
  intro before hfirst
  rw [findParam_of_firstBehind hfirst, eq_comm,
    List.findIdx?_eq_some_iff_getElem] at h
  obtain ⟨hlt, hd, hearlier⟩ := h
  refine ⟨(params c).take (before.count 123), (params c)[before.count 123],
    (params c).drop (before.count 123 + 1), ?_, of_decide_eq_true hd, ?_, ?_⟩
  · rw [List.getElem_cons_drop, List.take_append_drop]
  · intro e he
    obtain ⟨j, hj, rfl⟩ := List.getElem_of_mem he
    rw [List.length_take, lt_min_iff] at hj
    rw [List.getElem_take]
    exact fun hlabel => hearlier j hj.1 (decide_eq_true hlabel)
  · rw [List.length_take, min_eq_left hlt.le]

/-- The posts of a user: each brace of the route is that of its parameter. -/
theorem userPost_getsParam :
    GetsParam ⟨.get, bytes "/users/{id:int}/posts/{post}", .func⟩
      (bytes "post") := by
  have hwell : ∀ c ∈ [RouteCall.mk .get (bytes "/users/{id:int}/posts/{post}")
      .func], c.WellFormed := by
    rw [List.forall_mem_singleton]
    decide
  exact (getsParam_iff ⟨blankMemory, _, built_of_wellFormed blankMemory hwell⟩
    (bytes "post")).mpr (countsRight_of_findIdx (by decide +kernel))

/-- A request that is answered at the node of its route is dispatched to it. -/
theorem dispatchedTo_of_way (u : Uninit) {calls : List RouteCall}
    (hcalls : ∀ c ∈ calls, c.WellFormed) (m : HttpMethod) (rest : Bytes)
    (c : RouteCall) (index : ℕ) (hcall : calls[index]? = some c)
    (hway : ((ofCalls u calls).root.way m (levelsOf rest)).map
        (fun w => (w.pattern, w.answer m))
      = some ((ofCalls u calls).root.data :: c.pattern, index)) :
    (ofCalls u calls).DispatchedTo calls m (slash :: rest) c
      (captures c.pattern (levelsOf rest)) index := by
  have hbuilt := built_of_wellFormed u hcalls
  obtain ⟨hlt, hget⟩ := List.getElem?_eq_some_iff.mp hcall
  have hc : c.taken = c := RouteCall.taken_of_wellFormed
    (hcalls c (hget ▸ List.getElem_mem hlt))
  obtain ⟨w, hw, heq⟩ := Option.map_eq_some_iff.mp hway
  obtain ⟨hpattern, hanswer⟩ := Prod.mk.inj heq
  refine ⟨?_, hcall, w, hw, by rw [hc]; exact hpattern⟩
  have hmatch : (ofCalls u calls).root.matchPath m (slash :: rest) []
      = .ok (some index, captures c.pattern (levelsOf rest)) := by
    rw [RouteNode.matchPath_eq, RouteNode.search_eq, hw, RouteNode.found,
      hanswer, hpattern, captures, captured_root hbuilt]
    rfl
  have hhandlers := (addRoutes_ok (sound_new u) hbuilt).2.1
  rw [dispatchRoute, hmatch, Except.ok_bind]
  exact if_pos (by rw [hhandlers]; exact hlt.trans_le (Nat.le_add_left _ _))

/-- Two parameters, and the name of one starts with that of the other. -/
def postCalls : List RouteCall := [⟨.get, bytes "/{idx}/{id}", .func⟩]

theorem wellFormed_postCalls : ∀ c ∈ postCalls, c.WellFormed := by
  rw [postCalls, List.forall_mem_singleton]
  decide

theorem routes_postCalls : routes postCalls =
    [([⟨.paramString, bytes "idx"⟩, ⟨.paramString, bytes "id"⟩], .get, 0)] := by
  decide

/-- **A name that starts with the label is taken for it.** -/
theorem idx_not_getsParam :
    ¬ ∀ (u : Uninit) (calls : List RouteCall) (router : HttpRouter),
      (new u).addRoutes u calls = .ok router →
      ∀ (m : HttpMethod) (path : Bytes) (c : RouteCall) (vars : List Bytes)
        (index : ℕ), router.DispatchedTo calls m path c vars index →
        ∀ label, router.getParam vars index label
          = .ok (paramValue label (routeCaptures c path)) := by
  intro h
  have hdispatch := dispatchedTo_of_way blankMemory wellFormed_postCalls
    .get (bytes "1/2") ⟨.get, bytes "/{idx}/{id}", .func⟩ 0 rfl (by
      rw [root_ofCalls, routes_postCalls]
      decide +kernel)
  have hparam := h _ _ _ (built_of_wellFormed _ wellFormed_postCalls) _ _ _ _ _
    hdispatch (bytes "id")
  have hvalue : paramValue (bytes "id") (routeCaptures
      ⟨.get, bytes "/{idx}/{id}", .func⟩ (slash :: bytes "1/2"))
        = some (bytes "2") := by decide +kernel
  have hfound : (ofCalls blankMemory postCalls).getParam
      (captures (RouteCall.pattern ⟨.get, bytes "/{idx}/{id}", .func⟩)
        (levelsOf (bytes "1/2"))) 0 (bytes "id") = .ok (some (bytes "1")) := by
    rfl
  rw [hvalue, hfound] at hparam
  exact absurd hparam (by decide)

end HttpRouter
