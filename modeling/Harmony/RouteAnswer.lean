import Harmony.HttpRouter
import Harmony.RouteIndex

/-!
# Which requests a router answers, and with what

A search stops at the first pattern that fits the levels of a path and that the
method reaches, in the order of the tree (`HttpRouter.FirstFit`). Three things
follow for a router that has been given any list of routes.

A request whose levels are an instance of a registered pattern is answered:
backing out of a sibling never loses a route
(`HttpRouter.matches_of_instance`). What it is answered with need not be a route
for the whole path. A node where a route ends answers also when levels are left
and its children have failed (`HttpRouter.answersInFull_iff`). And the levels
that a numeric parameter captures are checked character by character, so that an
empty one passes (`HttpRouter.capturesNumerals_iff`).

The path of a route is asserted to have no empty level, but the root takes a
path that starts with one, and then reads no further (`RouteCall.taken`).
-/

open PrefixOrder

namespace RouteCall

/-- **A call as the tree takes it**: behind an empty first level nothing is
read. -/
def taken (c : RouteCall) : RouteCall :=
  if (levelsOf c.routePath.tail).head? = some [] then
    { c with routePath := [slash] }
  else c

/-- A well-formed call is taken as it is. -/
theorem taken_of_wellFormed {c : RouteCall} (h : c.WellFormed) : c.taken = c := by
  refine if_neg fun hhead => h.2 ?_
  exact List.mem_of_mem_head? hhead

end RouteCall

namespace RouteNode

/-- An empty level behind the first one fails the assertion, and so does a first
one anywhere but at the root. -/
theorem insertPath_error (u : Uninit) (n : RouteNode) (m : HttpMethod)
    (index : ℕ) (rest : Bytes) (hempty : rest = [] ∨ [] ∈ levelsOf rest)
    (hroot : n.data.type = .root →
      rest ≠ [] ∧ firstLevel (slash :: rest) ≠ []) :
    insertPath u n m (slash :: rest) index = .error .assertion := by
  induction hk : rest.length using Nat.strong_induction_on
    generalizing u n rest with
  | _ k ih =>
    rw [insertPath]
    by_cases hfirst : firstLevel (slash :: rest) = []
    · have htype : n.data.type ≠ .root := fun h => (hroot h).2 hfirst
      simp [hfirst, htype]
    · have hrest : rest ≠ [] := by
        rintro rfl
        exact hfirst rfl
      have hlevels : [] ∈ levelsOf (afterLevel rest) := by
        have hmem := hempty.resolve_left hrest
        rw [levelsOf_eq hrest, List.mem_cons] at hmem
        exact hmem.resolve_left fun h => hfirst h.symm
      have hnext : nextPath (slash :: rest) ≠ [slash] := by
        rw [nextPath_cons]
        intro h
        rw [(List.cons.inj h).2] at hlevels
        exact List.not_mem_nil hlevels
      -- below a level there is no root
      have hbelow : ∀ (u : Uninit) (n : RouteNode), n.data.type ≠ .root →
          insertPath u n m (nextPath (slash :: rest)) index
            = .error .assertion := by
        intro u n hn
        rw [nextPath_cons]
        exact ih _ (hk ▸ length_afterLevel_lt hrest) u n (afterLevel rest)
          (Or.inr hlevels) (fun h => absurd h hn) rfl
      have hd := RouteNodeData.type_ofLevel (firstLevel (slash :: rest))
      have hfind := findIdx_eqData n.children hd
      rw [if_neg (by simp), dif_pos hfirst]
      dsimp only
      cases hidx : n.children.findIdx? (fun child => child.data.eqData
        (RouteNodeData.ofLevel (firstLevel (slash :: rest)))) with
      | none =>
        have hchild : ∀ u' : Uninit, insertPath u'
            (ofData (RouteNodeData.ofLevel (firstLevel (slash :: rest))) u' false)
            m (nextPath (slash :: rest)) index = .error .assertion :=
          fun u' => hbelow u' _ hd
        simp only [if_neg hnext, hchild, Except.error_bind]
      | some i =>
        rw [hidx] at hfind
        obtain ⟨hi, hold⟩ := hfind
        have hchild : (n.children.getD i n).data.type ≠ .root := by
          rw [show n.children.getD i n = n.children[i] from
            (List.getElem_eq_getD n).symm, hold]
          exact hd
        simp only [if_neg hnext, hbelow _ _ hchild, Except.error_bind]

/-- **What the root takes**: a path without empty levels, or one that starts
with an empty level, as if it was the bare slash. -/
theorem insertPath_ok {u : Uninit} {n n' : RouteNode} {m : HttpMethod}
    {index : ℕ} {path : Bytes} (hn : n.data.type = .root)
    (h : insertPath u n m path index = .ok n') :
    ∃ rest, path = slash :: rest ∧
      ([] ∉ levelsOf rest ∧ n' = insertLevels u n m index
          ((levelsOf rest).map RouteNodeData.ofLevel) ∨
        (levelsOf rest).head? = some [] ∧ n' = insertLevels u n m index []) := by
  cases path with
  | nil =>
    rw [insertPath.eq_def] at h
    cases h
  | cons b rest =>
    by_cases hb : b = slash
    · subst hb
      refine ⟨rest, rfl, ?_⟩
      by_cases hlevels : [] ∉ levelsOf rest
      · rw [insertPath_eq u n m index rest hlevels fun _ => hn] at h
        exact Or.inl ⟨hlevels, (Except.ok.inj h).symm⟩
      · have hmem := not_not.mp hlevels
        have hrest : rest ≠ [] := by
          rintro rfl
          exact List.not_mem_nil hmem
        by_cases hfirst : firstLevel (slash :: rest) = []
        · rw [insertPath] at h
          simp only [hfirst, hn, ne_eq, not_true, if_false, dite_false,
            if_true] at h
          rw [levelsOf_eq hrest]
          exact Or.inr ⟨congrArg some hfirst, (Except.ok.inj h).symm⟩
        · rw [insertPath_error u n m index rest (Or.inr hmem)
            fun _ => ⟨hrest, hfirst⟩] at h
          cases h
    · rw [insertPath, if_pos hb] at h
      cases h

end RouteNode

namespace HttpRouter

/-- **A call that returns** leaves a tree with the route as it was taken. -/
theorem addRoute_ok {u : Uninit} {router router' : HttpRouter} {c : RouteCall}
    (hsound : router.Sound) (h : router.addRoute u c = .ok router') :
    router' = { router.added u c.taken with
      routePaths := router.routePaths ++ [c.routePath] } := by
  rw [addRoute, if_neg (not_not.mpr hsound.sizes)] at h
  obtain ⟨root, hinsert, h⟩ := Except.exists_of_bind_eq_ok h
  obtain ⟨rest, hpath, ⟨hlevels, hroot⟩ | ⟨hhead, hroot⟩⟩ :=
    RouteNode.insertPath_ok hsound.top hinsert
  · have hc : c.taken = c := RouteCall.taken_of_wellFormed
      ⟨by rw [hpath]; rfl, by rw [hpath]; exact hlevels⟩
    rw [hc, added, RouteCall.pattern, ← Except.ok.inj h, hroot, hpath]
    rfl
  · have hc : c.taken = { c with routePath := [slash] } :=
      if_pos (by rw [hpath]; exact hhead)
    rw [hc, ← Except.ok.inj h, hroot]
    rfl

/-- The calls see no more of a router than its tree and its handlers. -/
theorem root_foldl_congr (u : Uninit) (calls : List RouteCall)
    {router router' : HttpRouter} (hroot : router.root = router'.root)
    (hhandlers : router.handlers = router'.handlers) :
    (calls.foldl (added u) router).root
      = (calls.foldl (added u) router').root := by
  induction calls generalizing router router' with
  | nil => exact hroot
  | cons c calls ih =>
    refine ih ?_ ?_
    · rw [added, added, hroot, hhandlers]
    · rw [added, added, hhandlers]

/-- **Calls that return** leave a tree with their routes as they were taken,
one handler for each, and their paths. -/
theorem addRoutes_ok {u : Uninit} {calls : List RouteCall}
    {router router' : HttpRouter} (hsound : router.Sound)
    (h : router.addRoutes u calls = .ok router') :
    router'.root = ((calls.map RouteCall.taken).foldl (added u) router).root
      ∧ router'.handlers.length = router.handlers.length + calls.length
      ∧ router'.routePaths
        = router.routePaths ++ calls.map RouteCall.routePath := by
  induction calls generalizing router with
  | nil =>
    cases h
    exact ⟨rfl, rfl, (List.append_nil _).symm⟩
  | cons c calls ih =>
    rw [addRoutes] at h
    obtain ⟨router₁, hfirst, h⟩ := Except.exists_of_bind_eq_ok h
    obtain rfl := addRoute_ok hsound hfirst
    have hnext : HttpRouter.Sound { router.added u c.taken with
        routePaths := router.routePaths ++ [c.routePath] } := by
      refine ⟨?_, (hsound.added u c.taken).top⟩
      show (router.handlers ++ [c.taken.kind]).length
        = (router.routePaths ++ [c.routePath]).length
      rw [List.length_append, List.length_append, hsound.sizes]
      rfl
    obtain ⟨hroot, hhandlers, hpaths⟩ := ih hnext h
    refine ⟨hroot.trans (root_foldl_congr u _ rfl rfl), ?_, ?_⟩
    · rw [hhandlers, List.length_cons, ← Nat.add_assoc, Nat.add_right_comm]
      exact congrArg (· + calls.length) List.length_append
    · rw [hpaths, List.map_cons, List.append_assoc]
      rfl

/-! ## What a search stops at -/

/-- The routes of the calls as they were taken. -/
abbrev takenRoutes (calls : List RouteCall) : List Route :=
  routes (calls.map RouteCall.taken)

/-- Well-formed calls are taken as they are. -/
theorem takenRoutes_of_wellFormed {calls : List RouteCall}
    (h : ∀ c ∈ calls, c.WellFormed) : takenRoutes calls = routes calls := by
  have htaken : calls.map RouteCall.taken = calls.map id :=
    List.map_congr_left fun c hc => RouteCall.taken_of_wellFormed (h c hc)
  rw [takenRoutes, htaken, List.map_id]

/-- A call is one of the routes. -/
theorem exists_mem_routes {calls : List RouteCall} {c : RouteCall}
    (h : c ∈ calls) : ∃ i, (c.pattern, c.method, i) ∈ routes calls := by
  obtain ⟨i, hi, rfl⟩ := List.getElem_of_mem h
  exact ⟨i, mem_routesFrom.mpr
    ⟨Nat.zero_le i, _, List.getElem?_eq_getElem hi, rfl, rfl⟩⟩

/-- **The pattern a search stops at**: it fits the levels, the method reaches
it, and no other one that does comes before it. -/
def FirstFit (u : Uninit) (calls : List RouteCall) (m : HttpMethod)
    (levels : List Bytes) (k : List RouteNodeData) : Prop :=
  RouteNode.Candidate u .root (takenRoutes calls) m levels k ∧
    ∀ j, RouteNode.Candidate u .root (takenRoutes calls) m levels j →
      ¬ Precedes (takenRoutes calls) j k

/-- There is one such pattern at most. -/
theorem FirstFit.eq {u : Uninit} {calls : List RouteCall} {m : HttpMethod}
    {levels : List Bytes} {j k : List RouteNodeData}
    (hj : FirstFit u calls m levels j) (hk : FirstFit u calls m levels k) :
    j = k := by
  rcases precedes_trichotomy (takenRoutes calls) j k hj.1.1 hk.1.1
    with heq | hjk | hkj
  · exact heq
  · exact absurd hjk (hk.2 j hj.1)
  · exact absurd hkj (hj.2 k hk.1)

section Built

variable {u : Uninit} {calls : List RouteCall} {router : HttpRouter}

/-- Registering keeps the indices in step with the list of the calls. -/
theorem indexes_foldl (u : Uninit) (calls : List RouteCall)
    {router : HttpRouter} {R : List Route} (h : router.Sound)
    (hrep : RouteNode.Represents u router.root R)
    (hindexes : RouteNode.Indexes u router.root R) :
    RouteNode.Indexes u (calls.foldl (added u) router).root
      (R ++ routesFrom router.handlers.length calls) := by
  induction calls generalizing router R with
  | nil =>
    rw [routesFrom, List.append_nil]
    exact hindexes
  | cons c calls ih =>
    have hrep' : RouteNode.Represents u (router.added u c).root
        (R ++ [(c.pattern, c.method, router.handlers.length)]) :=
      RouteNode.represents_insertLevels c.method _ c.pattern c.type_ne_root
        hrep (Or.inr (Or.inl h.top))
    have hindexes' := RouteNode.indexes_insertLevels c.method
      router.handlers.length c.pattern c.type_ne_root hrep hindexes
    have hih := ih (h.added u c) hrep' hindexes'
    rw [added, List.length_append, List.append_assoc] at hih
    exact hih

/-- The indices of the tree are those of the routes. -/
theorem indexes_ofCalls (u : Uninit) (calls : List RouteCall) :
    RouteNode.Indexes u (ofCalls u calls).root (routes calls) :=
  indexes_foldl u calls (sound_new u)
    (RouteNode.represents_ofData ⟨.root, []⟩ u)
    (RouteNode.indexes_ofData ⟨.root, []⟩ u)

/-- **The way of a search leads to the first pattern that fits.** -/
theorem way_spec (hbuilt : (new u).addRoutes u calls = .ok router)
    (m : HttpMethod) (levels : List Bytes) :
    match router.root.way m levels with
    | none => ∀ k, ¬ RouteNode.Candidate u .root (takenRoutes calls) m levels k
    | some w => ∃ k, FirstFit u calls m levels k
        ∧ w.pattern = router.root.data :: k
        ∧ w.answer m = storedIndex u (takenRoutes calls) m k := by
  have hroot : router.root = (ofCalls u (calls.map RouteCall.taken)).root :=
    (addRoutes_ok (sound_new u) hbuilt).1
  rw [hroot]
  have hstops := RouteNode.way_stopsFirst
    (represents_ofCalls u (calls.map RouteCall.taken)) m levels
  rw [RouteNode.stopsFirst_congr
    (nodeCandidate_ofCalls u (calls.map RouteCall.taken) m levels)] at hstops
  cases hway : (ofCalls u (calls.map RouteCall.taken)).root.way m levels with
  | none =>
    rw [hway] at hstops
    exact hstops
  | some w =>
    rw [hway] at hstops
    obtain ⟨k, hpattern, hk, -, hfirst⟩ := hstops
    exact ⟨k, ⟨hk, hfirst⟩, hpattern,
      (RouteNode.leads_of_way hway).answer_eq (indexes_ofCalls u _) hpattern⟩

/-- The root of a router stays one. -/
theorem type_root (hbuilt : (new u).addRoutes u calls = .ok router) :
    router.root.data.type = .root := by
  rw [(addRoutes_ok (sound_new u) hbuilt).1]
  exact (sound_ofCalls u (calls.map RouteCall.taken)).top

/-- The root captures nothing. -/
theorem captured_root (hbuilt : (new u).addRoutes u calls = .ok router)
    (k : List RouteNodeData) (levels : List Bytes) :
    RouteNodeData.captured (router.root.data :: k) levels
      = RouteNodeData.captured k levels := by
  have htype := type_root hbuilt
  rw [RouteNodeData.captured, RouteNodeData.levelsBehind, if_pos htype,
    RouteNodeData.capture, RouteNodeData.isParam, htype]
  rfl

/-- **What `match` returns**: the index stored for the first pattern that fits,
and what its parameters capture. -/
theorem matchPath_eq_some_iff (hbuilt : (new u).addRoutes u calls = .ok router)
    (m : HttpMethod) (path : Bytes) (vars : List Bytes) (i : ℕ)
    (out : List Bytes) :
    router.root.matchPath m path vars = .ok (some i, out) ↔
      path.head? = some slash ∧ ∃ k, FirstFit u calls m (levelsOf path.tail) k
        ∧ i = storedIndex u (takenRoutes calls) m k
        ∧ out = vars ++ RouteNodeData.captures k (levelsOf path.tail) := by
  by_cases hslash : path.head? = some slash
  · obtain ⟨rest, rfl⟩ := List.head?_eq_some_iff.mp hslash
    have hspec := way_spec hbuilt m (levelsOf rest)
    rw [RouteNode.matchPath_eq, RouteNode.search_eq, List.tail_cons,
      and_iff_right hslash]
    cases hway : router.root.way m (levelsOf rest) with
    | none =>
      rw [hway] at hspec
      refine iff_of_false nofun ?_
      rintro ⟨k, hk, -⟩
      exact hspec k hk.1
    | some w =>
      rw [hway] at hspec
      obtain ⟨k, hk, hpattern, hanswer⟩ := hspec
      rw [RouteNode.found, hanswer, hpattern, RouteNodeData.captures,
        captured_root hbuilt]
      constructor
      · intro h
        cases h
        exact ⟨k, hk, rfl, rfl⟩
      · rintro ⟨k', hk', rfl, rfl⟩
        rw [hk'.eq hk]
        rfl
  · rw [RouteNode.matchPath_of_head_ne _ m hslash vars]
    refine iff_of_false ?_ fun h => hslash h.1
    split_ifs <;> simp

end Built

end HttpRouter

/-! ## Every instance of a pattern is answered -/

namespace RouteNodeData

/-- **The levels a node allows for.** -/
def Allows (d : RouteNodeData) (level : Bytes) : Prop :=
  match d.type with
  | .root => False
  | .constant => d.label = bytes "*" ∨ d.label = level
  | .paramInt => ∀ ch ∈ level, isDigit ch = true
  | .paramFloat =>
    (∀ ch ∈ level, isDigit ch = true ∨ ch = 46) ∧ level.count 46 ≤ 1
  | .paramString => True

/-- What the loop over the characters of a `{x:float}` level lets through. -/
theorem isFloat_iff {nDot : ℕ} (h : nDot ≤ 1) (level : Bytes) :
    isFloat nDot level = true ↔
      (∀ ch ∈ level, isDigit ch = true ∨ ch = 46)
        ∧ nDot + level.count 46 ≤ 1 := by
  induction level generalizing nDot with
  | nil => simpa [isFloat] using h
  | cons ch level ih =>
    rw [isFloat, List.forall_mem_cons, List.count_cons]
    by_cases hdot : ch = 46
    · subst hdot
      rw [if_neg (by decide), if_pos rfl]
      by_cases hzero : nDot = 0
      · subst hzero
        rw [if_neg (not_not.mpr rfl), ih le_rfl]
        simp [Nat.add_comm]
      · rw [if_pos hzero]
        refine iff_of_false Bool.false_ne_true fun h => ?_
        have hle := h.2
        simp at hle
        omega
    · rw [if_neg hdot]
      cases hdigit : isDigit ch with
      | true => simp [ih h, hdot]
      | false => simp [hdot]

/-- **The check of a level** says whether the node allows for it. -/
theorem accepts_iff {d : RouteNodeData} (h : d.type ≠ .root) (level : Bytes) :
    d.accepts level = true ↔ d.Allows level := by
  unfold accepts enter Allows
  cases htype : d.type with
  | root => exact absurd htype h
  | constant =>
    dsimp only
    by_cases hstar : d.label = bytes "*"
    · simp [hstar]
    · by_cases hlabel : d.label = level <;> simp [hstar, hlabel]
  | paramInt =>
    dsimp only
    rw [← List.all_eq_true]
    cases level.all isDigit <;> simp
  | paramFloat =>
    dsimp only
    rw [show level.count 46 ≤ 1 ↔ 0 + level.count 46 ≤ 1 by rw [Nat.zero_add],
      ← isFloat_iff (Nat.zero_le 1)]
    cases isFloat 0 level <;> simp
  | paramString => simp

end RouteNodeData

/-- Levels that a pattern allows for, one by one, fit it. -/
theorem RouteNode.fits_of_allows {k : List RouteNodeData} {levels : List Bytes}
    (h : List.Forall₂ RouteNodeData.Allows k levels) : RouteNode.Fits k levels := by
  induction h with
  | nil => trivial
  | @cons d level k levels hallows _ ih =>
    have htype : d.type ≠ .root := by
      intro htype
      unfold RouteNodeData.Allows at hallows
      rw [htype] at hallows
      exact hallows
    exact ⟨(RouteNodeData.accepts_iff htype level).mpr hallows, ih⟩

namespace HttpRouter

/-- **A path whose levels are an instance of a registered pattern is
answered.** -/
theorem matches_of_instance (u : Uninit) (calls : List RouteCall)
    (hcalls : ∀ c ∈ calls, c.WellFormed) (m : HttpMethod) (rest : Bytes)
    (hinst : ∃ c ∈ calls, c.method = m ∧
      List.Forall₂ RouteNodeData.Allows c.pattern (levelsOf rest)) :
    ∃ router, (new u).addRoutes u calls = .ok router ∧ ∀ vars, ∃ i out,
      router.root.matchPath m (slash :: rest) vars = .ok (some i, out) := by
  obtain ⟨c, hc, rfl, hallows⟩ := hinst
  have hbuilt := addRoutes_eq u calls hcalls (sound_new u)
  refine ⟨_, hbuilt, fun vars => ?_⟩
  obtain ⟨i, hi⟩ := exists_mem_routes hc
  rw [← takenRoutes_of_wellFormed hcalls] at hi
  have hcand : RouteNode.Candidate u .root (takenRoutes calls) c.method
      (levelsOf rest) c.pattern :=
    ⟨⟨_, hi⟩, open_of_mem u _ hi, RouteNode.fits_of_allows hallows⟩
  have hspec := way_spec hbuilt c.method (levelsOf rest)
  rw [RouteNode.matchPath_eq, RouteNode.search_eq]
  cases hway : (calls.foldl (added u) (new u)).root.way c.method
      (levelsOf rest) with
  | none =>
    rw [hway] at hspec
    exact absurd hcand (hspec c.pattern)
  | some w => exact ⟨_, _, rfl⟩

/-- Memory full of zeros. -/
def blankMemory : Uninit := fun _ => (0, fun _ => 0)

/-- Creating a user is answered, although the list of users comes first. -/
theorem newUser_matches : ∃ router,
    (new blankMemory).addRoutes blankMemory userCalls = .ok router ∧
    ∀ vars, ∃ i out,
      router.root.matchPath .post (bytes "/users/new") vars = .ok (some i, out) :=
  matches_of_instance blankMemory userCalls wellFormed_userCalls .post (bytes "users/new")
    ⟨⟨.post, bytes "/users/new", .func⟩, by decide, rfl, by
      refine .cons (Or.inr ?_) (.cons (Or.inr ?_) .nil) <;> decide⟩

/-! ## What is answered -/

/-- **The index is for the whole path**: the route it belongs to ends with `*`,
or has as many levels as the path. -/
def InFull (calls : List RouteCall) (levels : List Bytes) (i : ℕ) : Prop :=
  ∀ c, calls[i]? = some c →
    (levelsOf c.routePath.tail).getLast? ≠ some (bytes "*") →
    (levelsOf c.routePath.tail).length = levels.length

/-- **A request is answered in full**: if `match` finds an index, it is for the
whole path. -/
def AnswersInFull (router : HttpRouter) (calls : List RouteCall)
    (m : HttpMethod) (path : Bytes) : Prop :=
  ∀ vars i out, router.root.matchPath m path vars = .ok (some i, out) →
    InFull calls (levelsOf path.tail) i

/-- The level `*` is the only one that makes the constant `*`. -/
theorem ofLevel_eq_star_iff (level : Bytes) :
    RouteNodeData.ofLevel level = ⟨.constant, bytes "*"⟩
      ↔ level = bytes "*" := by
  constructor
  · unfold RouteNodeData.ofLevel
    split_ifs
    · split
      · intro heq
        cases heq
      · dsimp only
        intro heq
        split_ifs at heq <;> cases heq
    · exact fun heq => congrArg (·.label) heq
  · rintro rfl
    decide

/-- **For a pattern of the request's own method** the answer is for the whole
path if and only if the pattern ends with `*` or has as many levels. -/
theorem inFull_storedIndex_iff (u : Uninit) {calls : List RouteCall}
    (hcalls : ∀ c ∈ calls, c.WellFormed) (hfew : calls.length ≤ 2 ^ 16)
    {m : HttpMethod} {k : List RouteNodeData} {i : ℕ}
    (hlast : lastIndex m k (takenRoutes calls) = some i) (levels : List Bytes) :
    InFull calls levels (storedIndex u (takenRoutes calls) m k)
      ↔ k.getLast? = some ⟨.constant, bytes "*"⟩
        ∨ k.length = levels.length := by
  have hmem : (k, m, i) ∈ takenRoutes calls := by
    obtain ⟨r, hr, hsome⟩ := List.exists_of_findSome?_eq_some hlast
    split_ifs at hsome with hown
    cases hsome
    obtain ⟨rfl, rfl⟩ := hown
    exact List.mem_reverse.mp hr
  rw [takenRoutes_of_wellFormed hcalls, mem_routesFrom, Nat.sub_zero] at hmem
  obtain ⟨-, c, hget, rfl, -⟩ := hmem
  have hi : i < 2 ^ 16 := (List.getElem?_eq_some_iff.mp hget).1.trans_le hfew
  have hstored : storedIndex u (takenRoutes calls) m c.pattern = i := by
    rw [storedIndex, hlast]
    exact UInt16.toNat_ofNat_of_lt hi
  have hstar : c.pattern.getLast? = some ⟨.constant, bytes "*"⟩
      ↔ (levelsOf c.routePath.tail).getLast? = some (bytes "*") := by
    rw [RouteCall.pattern, List.getLast?_map, Option.map_eq_some_iff]
    constructor
    · rintro ⟨level, hlevel, heq⟩
      rw [hlevel, (ofLevel_eq_star_iff level).mp heq]
    · exact fun hlevel => ⟨_, hlevel, (ofLevel_eq_star_iff _).mpr rfl⟩
  rw [hstored, InFull, hget, hstar, RouteCall.pattern, List.length_map,
    or_iff_not_imp_left]
  constructor
  · exact fun h => h c rfl
  · intro h c' hc'
    cases hc'
    exact h

/-- A request is answered in full where the index that is stored for the first
pattern that fits is for the whole path. -/
theorem answersInFull_iff_storedIndex {u : Uninit} {calls : List RouteCall}
    {router : HttpRouter} (hbuilt : (new u).addRoutes u calls = .ok router)
    (m : HttpMethod) (path : Bytes) :
    router.AnswersInFull calls m path ↔
      (path.head? = some slash → ∀ k, FirstFit u calls m (levelsOf path.tail) k →
        InFull calls (levelsOf path.tail)
          (storedIndex u (takenRoutes calls) m k)) := by
  constructor
  · intro h hslash k hk
    exact h [] _ _ ((matchPath_eq_some_iff hbuilt m path [] _ _).mpr
      ⟨hslash, k, hk, rfl, rfl⟩)
  · intro h vars i out hmatch
    obtain ⟨hslash, k, hk, rfl, -⟩ :=
      (matchPath_eq_some_iff hbuilt m path vars i out).mp hmatch
    exact h hslash k hk

/-- **A request is answered in full exactly where the first pattern that fits is
for the whole path**: the index stored for it is. For routes that are well-formed
and few enough for sixteen bits, this is to say that the pattern ends with `*` or
has as many levels as the path; unless no route of the method has this pattern, and
the index is what was in memory. -/
theorem answersInFull_iff {u : Uninit} {calls : List RouteCall}
    {router : HttpRouter} (hbuilt : (new u).addRoutes u calls = .ok router)
    (m : HttpMethod) (path : Bytes) :
    (router.AnswersInFull calls m path ↔
      (path.head? = some slash → ∀ k, FirstFit u calls m (levelsOf path.tail) k →
        InFull calls (levelsOf path.tail)
          (storedIndex u (takenRoutes calls) m k)))
    ∧ ((∀ c ∈ calls, c.WellFormed) → calls.length ≤ 2 ^ 16 →
      (router.AnswersInFull calls m path ↔
        (path.head? = some slash → ∀ k, FirstFit u calls m (levelsOf path.tail) k →
          match lastIndex m k (routes calls) with
          | some _ => k.getLast? = some ⟨.constant, bytes "*"⟩
              ∨ k.length = (levelsOf path.tail).length
          | none => InFull calls (levelsOf path.tail) ((u k).2 m).toNat))) := by
  refine ⟨answersInFull_iff_storedIndex hbuilt m path, fun hcalls hfew => ?_⟩
  rw [answersInFull_iff_storedIndex hbuilt, ← takenRoutes_of_wellFormed hcalls]
  refine imp_congr_right fun _ => forall_congr' fun k => imp_congr_right fun _ => ?_
  cases hlast : lastIndex m k (takenRoutes calls) with
  | none =>
    rw [storedIndex, hlast]
  | some i => exact inFull_storedIndex_iff u hcalls hfew hlast _

/-- The router of well-formed calls. -/
theorem built_of_wellFormed (u : Uninit) {calls : List RouteCall}
    (h : ∀ c ∈ calls, c.WellFormed) :
    (new u).addRoutes u calls = .ok (ofCalls u calls) :=
  addRoutes_eq u calls h (sound_new u)

/-- The list of users is asked for in full. -/
theorem users_answersInFull :
    (ofCalls blankMemory userCalls).AnswersInFull userCalls .get
      (bytes "/users") := by
  refine ((answersInFull_iff (built_of_wellFormed _ wellFormed_userCalls) .get
    (bytes "/users")).2 wellFormed_userCalls (by decide)).mpr fun _ k hk => ?_
  obtain ⟨⟨⟨x, hx⟩, -, hfits⟩, -⟩ := hk
  rw [takenRoutes_of_wellFormed wellFormed_userCalls, routes_userCalls] at hx
  rw [routes_userCalls]
  rcases List.mem_cons.mp hx with heq | hx
  · cases heq
    exact Or.inr rfl
  · cases List.mem_singleton.mp hx
    exact hfits.2.elim

/-- A home page, and nothing else. -/
def homeCalls : List RouteCall := [⟨.get, bytes "/", .func⟩]

theorem wellFormed_homeCalls : ∀ c ∈ homeCalls, c.WellFormed := by
  rw [homeCalls, List.forall_mem_singleton]
  decide

/-- **The home page answers for every file.** -/
theorem style_not_answersInFull :
    ¬ ∀ (u : Uninit) (calls : List RouteCall) (router : HttpRouter),
      (new u).addRoutes u calls = .ok router → ∀ (m : HttpMethod) (path : Bytes),
        router.AnswersInFull calls m path := by
  intro h
  have hmatch : (ofCalls blankMemory homeCalls).root.matchPath .get
      (bytes "/style.css") [] = .ok (some 0, []) := by
    rw [show bytes "/style.css" = slash :: bytes "style.css" from rfl,
      RouteNode.matchPath_eq, root_ofCalls]
    decide
  have hfull := h _ _ _ (built_of_wellFormed blankMemory wellFormed_homeCalls)
    .get (bytes "/style.css") [] 0 [] hmatch ⟨.get, bytes "/", .func⟩ rfl
    (by decide)
  exact absurd hfull (by decide)

/-! ## What is captured -/

/-- **A captured value is a number**, where the parameter asks for one: digits
for `{x:int}`, and at most one dot among digits for `{x:float}`. -/
def Numeral (d : RouteNodeData) (value : Bytes) : Prop :=
  (d.type = .paramInt →
    value ≠ [] ∧ ∀ ch ∈ value, RouteNodeData.isDigit ch = true) ∧
  (d.type = .paramFloat → (∃ ch ∈ value, RouteNodeData.isDigit ch = true) ∧
    (∀ ch ∈ value, RouteNodeData.isDigit ch = true ∨ ch = 46) ∧
    value.count 46 ≤ 1)

/-- **The captured values are numbers** where they have to be, whenever a
request is matched. -/
def CapturesNumerals (router : HttpRouter) (m : HttpMethod) (path : Bytes) :
    Prop :=
  ∀ vars i out, router.root.matchPath m path vars = .ok (some i, out) →
    ∃ w, router.root.way m (levelsOf path.tail) = some w ∧
      out = vars ++ RouteNodeData.captures w.pattern (levelsOf path.tail) ∧
      ∀ p ∈ RouteNodeData.captured w.pattern (levelsOf path.tail),
        Numeral p.1 p.2

/-- Digits and at most one dot contain a digit unless there is nothing else. -/
theorem exists_digit_iff {value : Bytes}
    (hchars : ∀ ch ∈ value, RouteNodeData.isDigit ch = true ∨ ch = 46)
    (hdots : value.count 46 ≤ 1) :
    (∃ ch ∈ value, RouteNodeData.isDigit ch = true)
      ↔ value ≠ [] ∧ value ≠ bytes "." := by
  constructor
  · rintro ⟨ch, hch, hdigit⟩
    refine ⟨List.ne_nil_of_mem hch, ?_⟩
    rintro rfl
    rw [List.mem_singleton.mp hch] at hdigit
    exact absurd hdigit (by decide)
  · rintro ⟨hnil, hdot⟩
    by_contra hnone
    have hall : ∀ ch ∈ value, ch = 46 := fun ch hch =>
      (hchars ch hch).resolve_left fun hdigit => hnone ⟨ch, hch, hdigit⟩
    have heq := List.eq_replicate_of_mem hall
    rw [heq, List.count_replicate_self] at hdots
    cases hlen : value.length with
    | zero => exact hnil (List.length_eq_zero_iff.mp hlen)
    | succ n =>
      have hone : value.length = 1 := by omega
      rw [hone] at heq
      exact hdot heq

/-- A level that passes is a number unless it is empty or a single dot. -/
theorem numeral_iff {d : RouteNodeData} {value : Bytes}
    (h : d.accepts value = true) :
    Numeral d value ↔ (d.type = .paramInt → value ≠ []) ∧
      (d.type = .paramFloat → value ≠ [] ∧ value ≠ bytes ".") := by
  refine and_congr (forall_congr' fun hint => ?_)
    (forall_congr' fun hfloat => ?_)
  · have hallows := (RouteNodeData.accepts_iff (by rw [hint]; simp) value).mp h
    rw [RouteNodeData.Allows, hint] at hallows
    exact and_iff_left hallows
  · have hallows := (RouteNodeData.accepts_iff (by rw [hfloat]; simp) value).mp h
    rw [RouteNodeData.Allows, hfloat] at hallows
    rw [and_iff_left hallows]
    exact exists_digit_iff hallows.1 hallows.2

/-- What a pattern that fits captures has passed. -/
theorem accepts_of_mem_captured {k : List RouteNodeData}
    (htypes : ∀ d ∈ k, d.type ≠ .root) {levels : List Bytes}
    (hfits : RouteNode.Fits k levels) :
    ∀ p ∈ RouteNodeData.captured k levels, p.1.accepts p.2 = true := by
  induction k generalizing levels with
  | nil => exact fun p hp => absurd hp List.not_mem_nil
  | cons d k ih =>
    cases levels with
    | nil => exact hfits.elim
    | cons level levels =>
      obtain ⟨hd, hk⟩ := List.forall_mem_cons.mp htypes
      intro p hp
      rw [RouteNodeData.captured, RouteNodeData.levelsBehind, if_neg hd,
        List.mem_append] at hp
      rcases hp with hp | hp
      · unfold RouteNodeData.capture at hp
        split_ifs at hp
        · rw [List.mem_singleton.mp hp]
          exact hfits.1
        · exact absurd hp List.not_mem_nil
      · exact ih hk hfits.2 p hp

/-- No level of a registered pattern is a root. -/
theorem type_ne_root_of_mem {calls : List RouteCall} {k : List RouteNodeData}
    {x : HttpMethod × ℕ} (h : (k, x) ∈ routes calls) :
    ∀ d ∈ k, d.type ≠ .root := by
  obtain ⟨-, c, -, rfl, -⟩ := mem_routesFrom.mp h
  exact c.type_ne_root

/-- **The captured values are numbers exactly where the first pattern that fits
meets no empty level for `{x:int}`, and neither an empty one nor a single dot
for `{x:float}`.** -/
theorem capturesNumerals_iff {u : Uninit} {calls : List RouteCall}
    {router : HttpRouter} (hbuilt : (new u).addRoutes u calls = .ok router)
    (m : HttpMethod) (path : Bytes) :
    router.CapturesNumerals m path ↔
      (path.head? = some slash → ∀ k, FirstFit u calls m (levelsOf path.tail) k →
        ∀ p ∈ RouteNodeData.captured k (levelsOf path.tail),
          (p.1.type = .paramInt → p.2 ≠ []) ∧
          (p.1.type = .paramFloat → p.2 ≠ [] ∧ p.2 ≠ bytes ".")) := by
  have hspec := way_spec hbuilt m (levelsOf path.tail)
  have hnumeral : ∀ k, FirstFit u calls m (levelsOf path.tail) k →
      ∀ p ∈ RouteNodeData.captured k (levelsOf path.tail),
        Numeral p.1 p.2 ↔ (p.1.type = .paramInt → p.2 ≠ []) ∧
          (p.1.type = .paramFloat → p.2 ≠ [] ∧ p.2 ≠ bytes ".") := by
    rintro k ⟨⟨⟨x, hx⟩, -, hfits⟩, -⟩ p hp
    exact numeral_iff
      (accepts_of_mem_captured (type_ne_root_of_mem hx) hfits p hp)
  constructor
  · intro h hslash k hk p hp
    obtain ⟨w, hway, -, hnumerals⟩ := h [] _ _
      ((matchPath_eq_some_iff hbuilt m path [] _ _).mpr
        ⟨hslash, k, hk, rfl, rfl⟩)
    rw [hway] at hspec
    obtain ⟨k', hk', hpattern, -⟩ := hspec
    rw [hpattern, captured_root hbuilt, hk'.eq hk] at hnumerals
    exact (hnumeral k hk p hp).mp (hnumerals p hp)
  · intro h vars i out hmatch
    obtain ⟨hslash, k, hk, -, rfl⟩ :=
      (matchPath_eq_some_iff hbuilt m path vars i out).mp hmatch
    cases hway : router.root.way m (levelsOf path.tail) with
    | none =>
      rw [hway] at hspec
      exact absurd hk.1 (hspec k)
    | some w =>
      rw [hway] at hspec
      obtain ⟨k', hk', hpattern, -⟩ := hspec
      rw [hk'.eq hk] at hpattern
      refine ⟨w, rfl, ?_, ?_⟩
      · rw [hpattern, RouteNodeData.captures, RouteNodeData.captures,
          captured_root hbuilt]
      · rw [hpattern, captured_root hbuilt]
        exact fun p hp => (hnumeral k hk p hp).mpr (h hslash k hk p hp)

/-- Pages of users by their numbers. -/
def numberedCalls : List RouteCall := [⟨.get, bytes "/users/{id:int}", .func⟩]

theorem wellFormed_numberedCalls : ∀ c ∈ numberedCalls, c.WellFormed := by
  rw [numberedCalls, List.forall_mem_singleton]
  decide

theorem routes_numberedCalls : routes numberedCalls =
    [([⟨.constant, bytes "users"⟩, ⟨.paramInt, bytes "id"⟩], .get, 0)] := by
  decide

/-- The page of a user is asked for by a number. -/
theorem user7_capturesNumerals :
    (ofCalls blankMemory numberedCalls).CapturesNumerals .get
      (bytes "/users/7") := by
  refine (capturesNumerals_iff (built_of_wellFormed _ wellFormed_numberedCalls)
    .get (bytes "/users/7")).mpr fun _ k hk => ?_
  obtain ⟨⟨⟨x, hx⟩, -, -⟩, -⟩ := hk
  rw [takenRoutes_of_wellFormed wellFormed_numberedCalls,
    routes_numberedCalls] at hx
  cases List.mem_singleton.mp hx
  decide +kernel

/-- **The number of a user may be empty.** -/
theorem noUser_not_capturesNumerals :
    ¬ ∀ (u : Uninit) (calls : List RouteCall) (router : HttpRouter),
      (new u).addRoutes u calls = .ok router → ∀ (m : HttpMethod) (path : Bytes),
        router.CapturesNumerals m path := by
  intro h
  have hroot := root_ofCalls blankMemory numberedCalls
  rw [routes_numberedCalls] at hroot
  have hmatch : (ofCalls blankMemory numberedCalls).root.matchPath .get
      (bytes "/users//") [] = .ok (some 0, [[]]) := by
    rw [show bytes "/users//" = slash :: bytes "users//" from rfl,
      RouteNode.matchPath_eq, hroot]
    decide +kernel
  obtain ⟨w, hway, -, hnumerals⟩ := h _ _ _
    (built_of_wellFormed blankMemory wellFormed_numberedCalls) .get
    (bytes "/users//") [] 0 [[]] hmatch
  have hmem : (⟨.paramInt, bytes "id"⟩, []) ∈ RouteNodeData.captured w.pattern
      (levelsOf (bytes "/users//").tail) := by
    have hpattern : ((ofCalls blankMemory numberedCalls).root.way .get
        (levelsOf (bytes "/users//").tail)).map Way.pattern
          = some [⟨.root, []⟩, ⟨.constant, bytes "users"⟩,
            ⟨.paramInt, bytes "id"⟩] := by
      rw [hroot]
      decide +kernel
    rw [hway] at hpattern
    rw [Option.some.inj hpattern]
    decide
  exact (hnumerals _ hmem).1 rfl |>.1 rfl

end HttpRouter
