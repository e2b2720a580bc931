import Harmony.RouteSearch

/-!
# The router

`HttpRouter` numbers the routes in the order of the `add_route` calls and
puts them into its tree. The tree it ends with represents the list of the
calls (`HttpRouter.represents_ofCalls`), so `match` answers with the first
candidate in the order of the search. Whether that answer belongs to the
method asked for is a question about the list alone:
`HttpRouter.answersOwnMethod_iff_guarded`.
-/

open PrefixOrder

/-- How a handler is run: to its end, or as a coroutine. -/
inductive HandlerKind where
  | func
  | coroFunc
  deriving DecidableEq, Repr

/-- **The router.** The handlers themselves are the program's. -/
structure HttpRouter where
  /-- The tree. -/
  root : RouteNode
  /-- How each handler is run. -/
  handlers : List HandlerKind
  /-- The path each handler was registered with. -/
  routePaths : List Bytes

/-- The arguments of an `add_route` call. -/
structure RouteCall where
  /-- The method. -/
  method : HttpMethod
  /-- The registered path. -/
  routePath : Bytes
  /-- The kind of handler. -/
  kind : HandlerKind
  deriving DecidableEq, Repr

namespace RouteCall

/-- What the tree asks of the levels of a request path. -/
def pattern (c : RouteCall) : List RouteNodeData :=
  (levelsOf c.routePath.tail).map RouteNodeData.ofLevel

/-- The path starts with a slash and has no empty level. -/
def WellFormed (c : RouteCall) : Prop :=
  c.routePath.head? = some slash ∧ [] ∉ levelsOf c.routePath.tail

instance (c : RouteCall) : Decidable c.WellFormed :=
  inferInstanceAs (Decidable (_ ∧ _))

/-- No level of a pattern is a root. -/
theorem type_ne_root (c : RouteCall) : ∀ d ∈ c.pattern, d.type ≠ .root := by
  intro d hd
  obtain ⟨level, -, rfl⟩ := List.mem_map.mp hd
  exact RouteNodeData.type_ofLevel level

end RouteCall

namespace HttpRouter

/-- A new router. -/
def new (u : Uninit) : HttpRouter := ⟨RouteNode.root u, [], []⟩

/-- **`HttpRouter::add_route`.** -/
def addRoute (u : Uninit) (router : HttpRouter) (c : RouteCall) :
    Except Fault HttpRouter :=
  if router.handlers.length ≠ router.routePaths.length then
    .error .assertion
  else do
    let index := router.handlers.length
    let root ← router.root.insertPath u c.method c.routePath index
    .ok {
      root := root
      handlers := router.handlers ++ [c.kind]
      routePaths := router.routePaths ++ [c.routePath] }

/-- The calls in turn. -/
def addRoutes (u : Uninit) (router : HttpRouter) :
    List RouteCall → Except Fault HttpRouter
  | [] => .ok router
  | c :: calls => do
    let router ← router.addRoute u c
    addRoutes u router calls

/-- The routes the calls register, numbered from `index` on. -/
def routesFrom (index : ℕ) : List RouteCall → List Route
  | [] => []
  | c :: calls => (c.pattern, c.method, index) :: routesFrom (index + 1) calls

/-- The routes of a new router after the calls. -/
abbrev routes (calls : List RouteCall) : List Route := routesFrom 0 calls

/-! ## The tree a router builds -/

/-- **What `add_route` leaves behind**, read off the levels of the path. -/
def added (u : Uninit) (router : HttpRouter) (c : RouteCall) : HttpRouter where
  root := router.root.insertLevels u c.method router.handlers.length c.pattern
  handlers := router.handlers ++ [c.kind]
  routePaths := router.routePaths ++ [c.routePath]

/-- A router as its own calls leave it: one handler for each path, and a
root at the top. -/
structure Sound (router : HttpRouter) : Prop where
  /-- The assertion of `add_route`. -/
  sizes : router.handlers.length = router.routePaths.length
  /-- The top of the tree. -/
  top : router.root.data.type = .root

theorem sound_new (u : Uninit) : (new u).Sound := ⟨rfl, rfl⟩

theorem Sound.added {router : HttpRouter} (h : router.Sound) (u : Uninit)
    (c : RouteCall) : (router.added u c).Sound := by
  refine ⟨?_, ?_⟩
  · rw [HttpRouter.added, List.length_append, List.length_append, h.sizes]
    rfl
  · rw [HttpRouter.added, RouteNode.data_insertLevels]
    exact h.top

/-- However the paths are made, there is one for each handler. -/
theorem sizes_of_addRoutes {u : Uninit} {calls : List RouteCall}
    {router router' : HttpRouter}
    (h : router.handlers.length = router.routePaths.length)
    (hbuilt : router.addRoutes u calls = .ok router') :
    router'.handlers.length = router'.routePaths.length := by
  induction calls generalizing router with
  | nil =>
    cases hbuilt
    exact h
  | cons c calls ih =>
    rw [addRoutes, addRoute, if_neg (not_not.mpr h)] at hbuilt
    dsimp only at hbuilt
    cases hinsert : router.root.insertPath u c.method c.routePath
        router.handlers.length with
    | error f =>
      rw [hinsert, Except.error_bind, Except.error_bind] at hbuilt
      cases hbuilt
    | ok root =>
      rw [hinsert, Except.ok_bind, Except.ok_bind] at hbuilt
      refine ih ?_ hbuilt
      rw [List.length_append, List.length_append, h]
      rfl

/-- **A well-formed path is registered.** -/
theorem addRoute_eq {router : HttpRouter} (h : router.Sound) (u : Uninit)
    {c : RouteCall} (hc : c.WellFormed) :
    router.addRoute u c = .ok (router.added u c) := by
  obtain ⟨hslash, hlevels⟩ := hc
  obtain ⟨rest, hpath⟩ : ∃ rest, c.routePath = slash :: rest := by
    cases hpath : c.routePath with
    | nil =>
      rw [hpath] at hslash
      cases hslash
    | cons b rest =>
      rw [hpath] at hslash
      cases hslash
      exact ⟨rest, rfl⟩
  rw [hpath, List.tail_cons] at hlevels
  rw [addRoute, if_neg (not_not.mpr h.sizes)]
  dsimp only
  rw [hpath, RouteNode.insertPath_eq u _ c.method _ rest hlevels
    fun _ => h.top, Except.ok_bind, added, RouteCall.pattern, hpath,
    List.tail_cons]

/-- Well-formed paths are registered one after the other. -/
theorem addRoutes_eq (u : Uninit) (calls : List RouteCall)
    (hcalls : ∀ c ∈ calls, c.WellFormed) {router : HttpRouter}
    (h : router.Sound) :
    router.addRoutes u calls = .ok (calls.foldl (added u) router) := by
  induction calls generalizing router with
  | nil => rfl
  | cons c calls ih =>
    rw [addRoutes, addRoute_eq h u (hcalls c List.mem_cons_self),
      Except.ok_bind, List.foldl_cons]
    exact ih (fun c' hc' => hcalls c' (List.mem_cons_of_mem c hc'))
      (h.added u c)

/-- The router after the calls. -/
def ofCalls (u : Uninit) (calls : List RouteCall) : HttpRouter :=
  calls.foldl (added u) (new u)

/-- Registering keeps the tree in step with the list of the calls. -/
theorem represents_foldl (u : Uninit) (calls : List RouteCall)
    {router : HttpRouter} {R : List Route} (h : router.Sound)
    (hrep : RouteNode.Represents u router.root R) :
    RouteNode.Represents u (calls.foldl (added u) router).root
      (R ++ routesFrom router.handlers.length calls) := by
  induction calls generalizing router R with
  | nil =>
    rw [routesFrom, List.append_nil]
    exact hrep
  | cons c calls ih =>
    have hstep : RouteNode.Represents u (router.added u c).root
        (R ++ [(c.pattern, c.method, router.handlers.length)]) :=
      RouteNode.represents_insertLevels c.method _ c.pattern c.type_ne_root
        hrep (Or.inr (Or.inl h.top))
    have hih := ih (h.added u c) hstep
    rw [added, List.length_append, List.append_assoc] at hih
    exact hih

/-- **The tree represents the list of the calls.** -/
theorem represents_ofCalls (u : Uninit) (calls : List RouteCall) :
    RouteNode.Represents u (ofCalls u calls).root (routes calls) :=
  represents_foldl u calls (sound_new u)
    (RouteNode.represents_ofData ⟨.root, []⟩ u)

/-- The tree is made of the routes, one after the other. -/
theorem root_ofCalls (u : Uninit) (calls : List RouteCall) :
    (ofCalls u calls).root = (routes calls).foldl
      (fun n r => n.insertLevels u r.2.1 r.2.2 r.1) (RouteNode.root u) := by
  show (calls.foldl (added u) (new u)).root
    = (routesFrom (new u).handlers.length calls).foldl _ (new u).root
  generalize new u = router
  induction calls generalizing router with
  | nil => rfl
  | cons c calls ih =>
    rw [List.foldl_cons, ih, added, List.length_append]
    rfl

/-- The top of the tree stays a root. -/
theorem sound_ofCalls (u : Uninit) (calls : List RouteCall) :
    (ofCalls u calls).Sound := by
  unfold ofCalls
  generalize new u = router, sound_new u = h
  induction calls generalizing router with
  | nil => exact h
  | cons c calls ih => exact ih _ (h.added u c)

/-- The routes are the calls with their numbers. -/
theorem mem_routesFrom {calls : List RouteCall} {index i : ℕ}
    {k : List RouteNodeData} {m : HttpMethod} :
    (k, m, i) ∈ routesFrom index calls ↔
      index ≤ i ∧ ∃ c, calls[i - index]? = some c ∧ c.pattern = k
        ∧ c.method = m := by
  induction calls generalizing index with
  | nil => simp [routesFrom]
  | cons c calls ih =>
    rw [routesFrom, List.mem_cons, ih]
    constructor
    · rintro (heq | ⟨hle, c', hget, h⟩)
      · cases heq
        exact ⟨le_rfl, c, by rw [Nat.sub_self]; rfl, rfl, rfl⟩
      · refine ⟨by omega, c', ?_, h⟩
        rw [← hget, show i - index = i - (index + 1) + 1 by omega]
        rfl
    · rintro ⟨hle, c', hget, rfl, rfl⟩
      rcases Nat.eq_or_lt_of_le hle with rfl | hlt
      · rw [Nat.sub_self] at hget
        cases hget
        exact Or.inl rfl
      · refine Or.inr ⟨hlt, c', ?_, rfl, rfl⟩
        rw [← hget, show i - index = i - (index + 1) + 1 by omega]
        rfl

/-! ## Whose answer it is -/

/-- **The answer belongs to the method**: whatever was in memory, the calls
return, and if `match` finds an index, a call with the method was given that
index. -/
def AnswersOwnMethod (calls : List RouteCall) (m : HttpMethod)
    (path : Bytes) : Prop :=
  ∀ u, ∃ router, (new u).addRoutes u calls = .ok router ∧
    ∀ vars, ∃ found out, router.root.matchPath m path vars = .ok (found, out) ∧
      ∀ i, found = some i → ∃ c, calls[i]? = some c ∧ c.method = m

/-- The method may reach the node of a pattern: along it, every node either
has a route of the method at or below it, or was made as an inner node, with
a mask that was never cleared. -/
def MayReach (type : RouteNodeData.Kind) (R : List Route) (m : HttpMethod) :
    List RouteNodeData → Prop
  | [] => (∃ r ∈ R, r.2.1 = m) ∨ RouteNode.Inner type R
  | d :: k =>
    ((∃ r ∈ R, r.2.1 = m) ∨ RouteNode.Inner type R) ∧
      MayReach d.type (below d R) m k

/-- **Every pattern of other methods is guarded**: where a pattern without a
route of the method fits the path and the method may reach it, the search
meets a fitting pattern with a route of the method before it. -/
def Guarded (calls : List RouteCall) (m : HttpMethod)
    (levels : List Bytes) : Prop :=
  ∀ k, (∃ x, (k, x) ∈ routes calls) → (∀ i, (k, m, i) ∉ routes calls) →
    RouteNode.Fits k levels → MayReach .root (routes calls) m k →
    ∃ j, (∃ i, (j, m, i) ∈ routes calls) ∧ RouteNode.Fits j levels
      ∧ Precedes (routes calls) j k

/-- The method reaches a node only where it may. -/
theorem mayReach_of_open {u : Uninit} {type : RouteNodeData.Kind}
    {R : List Route} {m : HttpMethod} {k : List RouteNodeData}
    (h : RouteNode.Open u type R m k) : MayReach type R m k := by
  induction k generalizing u type R with
  | nil => exact h.imp_right And.right
  | cons d k ih => exact ⟨h.1.imp_right And.right, ih h.2⟩

/-- The method reaches the nodes of its own routes. -/
theorem open_of_mem (u : Uninit) (type : RouteNodeData.Kind) {R : List Route}
    {m : HttpMethod} {k : List RouteNodeData} {i : ℕ} (h : (k, m, i) ∈ R) :
    RouteNode.Open u type R m k := by
  induction k generalizing u type R with
  | nil => exact Or.inl ⟨_, h, rfl⟩
  | cons d k ih =>
    exact ⟨Or.inl ⟨_, h, rfl⟩, ih _ _ ((mem_below d R k (m, i)).mpr h)⟩

/-- Memory full of ones, and an index no call was given. -/
def worstMemory (index : ℕ) : Uninit :=
  fun _ => (BitVec.allOnes 32, fun _ => UInt16.ofNat index)

/-- With such memory the method reaches every node it may reach. -/
theorem open_worstMemory (index : ℕ) {type : RouteNodeData.Kind}
    {R : List Route} {m : HttpMethod} {k : List RouteNodeData}
    (h : MayReach type R m k) :
    RouteNode.Open (worstMemory index) type R m k := by
  have hbit : BitVec.allOnes 32 &&& m.bit ≠ 0 := by
    cases m <;> decide
  induction k generalizing type R with
  | nil => exact h.imp_right fun hin => ⟨hbit, hin⟩
  | cons d k ih => exact ⟨h.1.imp_right fun hin => ⟨hbit, hin⟩, ih h.2⟩

/-- The candidates of a whole search. -/
theorem nodeCandidate_ofCalls (u : Uninit) (calls : List RouteCall)
    (m : HttpMethod) (levels : List Bytes) (k : List RouteNodeData) :
    RouteNode.NodeCandidate u (ofCalls u calls).root (routes calls) m levels k
      ↔ RouteNode.Candidate u .root (routes calls) m levels k := by
  have htop := (sound_ofCalls u calls).top
  rw [RouteNode.NodeCandidate, RouteNode.handedOn, if_pos htop,
    RouteNodeData.accepts, RouteNodeData.enter, htop]
  exact and_iff_right rfl

/-- An index under `2 ^ 16` is stored as it is. -/
theorem toNat_ofNat_of_lt {i n : ℕ} (h16 : n < 2 ^ 16) (h : i ≤ n) :
    (UInt16.ofNat i).toNat = i :=
  UInt16.toNat_ofNat_of_lt' (h.trans_lt h16)

/-- The index of a route is the number of its call. -/
theorem getElem?_of_mem_routes {calls : List RouteCall} {i : ℕ}
    {k : List RouteNodeData} {m : HttpMethod} (h : (k, m, i) ∈ routes calls) :
    ∃ c, calls[i]? = some c ∧ c.method = m := by
  obtain ⟨-, c, hget, -, hm⟩ := mem_routesFrom.mp h
  exact ⟨c, hget, hm⟩

/-- What `match` answers is what the search of the levels finds. -/
theorem answersOwnMethod_iff {calls : List RouteCall}
    (hcalls : ∀ c ∈ calls, c.WellFormed) (m : HttpMethod) (rest : Bytes) :
    AnswersOwnMethod calls m (slash :: rest) ↔
      ∀ u vars i,
        ((ofCalls u calls).root.search m (levelsOf rest) vars).1 = some i →
        ∃ c, calls[i]? = some c ∧ c.method = m := by
  have hbuilt : ∀ u, (new u).addRoutes u calls = .ok (ofCalls u calls) :=
    fun u => addRoutes_eq u calls hcalls (sound_new u)
  constructor
  · intro h u vars i hi
    obtain ⟨router, hrouter, hanswer⟩ := h u
    obtain ⟨found, out, hmatch, hown⟩ := hanswer vars
    rw [hbuilt u] at hrouter
    cases hrouter
    rw [RouteNode.matchPath_eq] at hmatch
    refine hown i ?_
    rw [← hi, Except.ok.inj hmatch]
  · intro h u
    refine ⟨_, hbuilt u, fun vars => ⟨_, _, RouteNode.matchPath_eq _ m rest _,
      fun i hi => h u vars i hi⟩⟩

/-- **The answer belongs to the method exactly where the patterns of the
other methods are guarded.** -/
theorem answersOwnMethod_iff_guarded (calls : List RouteCall)
    (h16 : calls.length < 2 ^ 16) (hcalls : ∀ c ∈ calls, c.WellFormed)
    (m : HttpMethod) (rest : Bytes) :
    AnswersOwnMethod calls m (slash :: rest)
      ↔ Guarded calls m (levelsOf rest) := by
  rw [answersOwnMethod_iff hcalls]
  have hfind : ∀ u vars, RouteNode.FindsFirst u (routes calls) m
      (RouteNode.Candidate u .root (routes calls) m (levelsOf rest))
      ((ofCalls u calls).root.search m (levelsOf rest) vars).1 :=
    fun u vars => (RouteNode.findsFirst_congr
      (nodeCandidate_ofCalls u calls m _)).mp
      (RouteNode.search_findsFirst (represents_ofCalls u calls) m _ vars)
  constructor
  · intro h k hk hother hfits hreach
    by_contra hnone
    -- with the worst memory the search cannot get past `k`
    have hfind := hfind (worstMemory calls.length) []
    cases hfound : ((ofCalls (worstMemory calls.length) calls).root.search m
        (levelsOf rest) []).1 with
    | none =>
      rw [hfound] at hfind
      exact hfind k ⟨hk, open_worstMemory _ hreach, hfits⟩
    | some i =>
      obtain ⟨c, hc, hm⟩ := h _ _ i hfound
      rw [hfound] at hfind
      obtain ⟨j, ⟨hj, -, hjfits⟩, hans, hfirst⟩ := hfind
      rcases hans with ⟨index, hindex, -⟩ | ⟨-, hgarbage⟩
      · rcases precedes_trichotomy _ j k hj hk with rfl | hjk | hkj
        · exact hother index hindex
        · exact hnone ⟨j, ⟨index, hindex⟩, hjfits, hjk⟩
        · exact hfirst k ⟨hk, open_worstMemory _ hreach, hfits⟩ hkj
      · rw [hgarbage, worstMemory, toNat_ofNat_of_lt h16 le_rfl,
          List.getElem?_eq_none le_rfl] at hc
        cases hc
  · intro hguarded u vars i hi
    have hfind := hfind u vars
    rw [hi] at hfind
    obtain ⟨k, ⟨hk, hopen, hfits⟩, hans, hfirst⟩ := hfind
    rcases hans with ⟨index, hindex, hstored⟩ | ⟨hother, -⟩
    · obtain ⟨c, hc, hm⟩ := getElem?_of_mem_routes hindex
      have hlt := (List.getElem?_eq_some_iff.mp hc).1
      rw [hstored, toNat_ofNat_of_lt h16 hlt.le]
      exact ⟨c, hc, hm⟩
    · obtain ⟨j, ⟨index, hindex⟩, hjfits, hprec⟩ :=
        hguarded k hk hother hfits (mayReach_of_open hopen)
      exact absurd hprec (hfirst j
        ⟨⟨_, hindex⟩, open_of_mem u _ hindex, hjfits⟩)

/-- Users can be listed, and created below. -/
def userCalls : List RouteCall :=
  [⟨.get, bytes "/users", .func⟩, ⟨.post, bytes "/users/new", .func⟩]

theorem wellFormed_userCalls : ∀ c ∈ userCalls, c.WellFormed := by
  rw [userCalls, List.forall_mem_cons, List.forall_mem_singleton]
  exact ⟨by decide, by decide⟩

theorem routes_userCalls : routes userCalls =
    [([⟨.constant, bytes "users"⟩], .get, 0),
      ([⟨.constant, bytes "users"⟩, ⟨.constant, bytes "new"⟩], .post, 1)] := by
  decide

/-- Creating a user is answered by its own route: the list of users fits
too, but it is met later. -/
theorem newUser_answersOwnMethod :
    AnswersOwnMethod userCalls .post (bytes "/users/new") := by
  refine (answersOwnMethod_iff_guarded userCalls (by decide)
    wellFormed_userCalls .post (bytes "users/new")).mpr ?_
  rw [Guarded, routes_userCalls]
  rintro k ⟨x, hk⟩ hother - -
  rcases List.mem_cons.mp hk with heq | hk
  · cases heq
    refine ⟨[⟨.constant, bytes "users"⟩, ⟨.constant, bytes "new"⟩],
      ⟨1, by decide⟩, ⟨by decide, by decide, trivial⟩, ?_⟩
    rw [Precedes, if_pos rfl]
    trivial
  · cases List.mem_singleton.mp hk
    exact absurd (by decide) (hother 1)

/-- **A route of another method answers.** Posting to the list of users
meets a node that is terminal for GET only, and gets the index that was in
memory. -/
theorem users_not_answersOwnMethod :
    ¬ ∀ (calls : List RouteCall) (m : HttpMethod) (rest : Bytes),
      calls.length < 2 ^ 16 → (∀ c ∈ calls, c.WellFormed) →
      AnswersOwnMethod calls m (slash :: rest) := by
  intro h
  have hown := h userCalls .post (bytes "users") (by decide)
    wellFormed_userCalls
  rw [answersOwnMethod_iff wellFormed_userCalls] at hown
  obtain ⟨c, hc, -⟩ := hown (fun _ => (0, fun _ => 7)) [] 7 (by
    rw [root_ofCalls, routes_userCalls]
    decide)
  cases hc

end HttpRouter
