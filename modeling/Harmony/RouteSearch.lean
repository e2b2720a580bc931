import Harmony.PrefixOrder
import Harmony.RouteWay

/-!
# Which route answers a request

The tree a router has built is compared with the list of its routes.
`RouteNode.Represents` says what the fields of a node have to do with the
routes below it: the order of the children is the order in which their
levels first came up, `terminal` says that a route of *some* method ends
here, `methods` has the bits of all methods below, and besides them whatever
was in memory when the node was made as an inner one. It holds of a new root
and every `add_route` keeps it.

From it, what `match` returns can be read off the list of routes: the
candidates are the patterns that fit the path and whose nodes let the method
through, and the answer is the entry of the first of them in the order of
the search (`PrefixOrder.Precedes`). That entry belongs to the method only
where a route of the method ends there; `HttpRouter.Guarded` says when this
is so whatever was in memory.
-/

open PrefixOrder

/-- A route as the tree sees it: its levels, its method and the index of its
handler. -/
abbrev Route := List RouteNodeData × (HttpMethod × ℕ)

/-! ## The bits of a mask -/

/-- A bit is set after the method was registered, or if it was set before. -/
theorem HttpMethod.or_bit_and_bit (x : BitVec 32) (m m' : HttpMethod) :
    (x ||| m.bit) &&& m'.bit ≠ 0 ↔ m = m' ∨ x &&& m'.bit ≠ 0 := by
  have hbits : m.bit &&& m'.bit = 0#32 ↔ m ≠ m' := by
    cases m <;> cases m' <;> decide
  rw [BitVec.and_comm, BitVec.and_or_distrib_left]
  show ¬ _ = 0#32 ↔ _ = _ ∨ ¬ _ = 0#32
  rw [BitVec.or_eq_zero_iff, BitVec.and_comm m'.bit m.bit,
    BitVec.and_comm m'.bit x, hbits]
  tauto

/-- A mask of one method has the bit of that method only. -/
theorem HttpMethod.bit_and_bit (m m' : HttpMethod) :
    m.bit &&& m'.bit ≠ 0 ↔ m = m' := by
  cases m <;> cases m' <;> decide

namespace RouteNode

/-! ## What a node has to do with its routes -/

/-- **The node was made as an inner one**: it is the root, or the first route
through it went on. Such a node keeps the bits it found in memory. -/
def Inner (type : RouteNodeData.Kind) (R : List Route) : Prop :=
  type = .root ∨ ∀ r, R.head? = some r → r.1 ≠ []

/-- The mask of a node lets the method through. -/
def Passes (u : Uninit) (type : RouteNodeData.Kind) (R : List Route)
    (m : HttpMethod) : Prop :=
  (∃ r ∈ R, r.2.1 = m) ∨ ((u []).1 &&& m.bit ≠ 0 ∧ Inner type R)

/-- The index a node has for a method: that of a route of the method ending
at the node, else what was in memory. -/
def Indexed (u : Uninit) (R : List Route) (m : HttpMethod) (x : UInt16) :
    Prop :=
  (∃ i, ([], m, i) ∈ R ∧ x = UInt16.ofNat i) ∨
    ((∀ i, ([], m, i) ∉ R) ∧ x = (u []).2 m)

/-- **The tree below a node holds these routes.** -/
inductive Represents : Uninit → RouteNode → List Route → Prop
  | node {u : Uninit} {n : RouteNode} {R : List Route}
      (terminal : n.terminal = true ↔ ∃ r ∈ R, r.1 = [])
      (methods : ∀ m : HttpMethod,
        n.methods &&& m.bit ≠ 0 ↔ Passes u n.data.type R m)
      (index : ∀ m, Indexed u R m (n.routeIndex m))
      (order : (n.children.map data).Pairwise
        (fun a b => firstAt a R < firstAt b R))
      (starts : ∀ d, d ∈ n.children.map data ↔ Starts d R)
      (types : ∀ c ∈ n.children, c.data.type ≠ .root)
      (children : ∀ c ∈ n.children,
        Represents (u.below c.data) c (below c.data R)) :
      Represents u n R

/-- A later route does not change how a node was made. -/
theorem inner_append {type : RouteNodeData.Kind} {R : List Route} {r : Route}
    (h : R ≠ [] ∨ type = .root ∨ r.1 ≠ []) :
    Inner type (R ++ [r]) ↔ Inner type R := by
  cases R with
  | nil =>
    have h' : type = .root ∨ r.1 ≠ [] := h.resolve_left (fun h => h rfl)
    simp [Inner, h']
  | cons r' R => simp [Inner]

/-- One more route, one more method. -/
theorem passes_append {u : Uninit} {type : RouteNodeData.Kind}
    {R : List Route} {r : Route} (h : R ≠ [] ∨ type = .root ∨ r.1 ≠ [])
    (m : HttpMethod) :
    Passes u type (R ++ [r]) m ↔ r.2.1 = m ∨ Passes u type R m := by
  simp only [Passes, inner_append h, List.mem_append, List.mem_singleton,
    or_and_right, exists_or, exists_eq_left]
  rw [or_assoc, or_left_comm]

/-- A route that goes on leaves the indices of a node alone. -/
theorem indexed_append_cons {u : Uninit} {R : List Route} {d : RouteNodeData}
    {ds : List RouteNodeData} {y : HttpMethod × ℕ} (m : HttpMethod)
    (x : UInt16) : Indexed u (R ++ [(d :: ds, y)]) m x ↔ Indexed u R m x := by
  simp [Indexed]

/-- A route that ends at a node sets the index of its method. -/
theorem indexed_update {u : Uninit} {R : List Route} {m : HttpMethod}
    {index : ℕ} {f : HttpMethod → UInt16} (h : ∀ m, Indexed u R m (f m))
    (m' : HttpMethod) :
    Indexed u (R ++ [([], m, index)]) m'
      (Function.update f m (UInt16.ofNat index) m') := by
  by_cases hm : m' = m
  · rw [hm, Function.update_self]
    exact Or.inl ⟨index, by simp, rfl⟩
  · rw [Function.update_of_ne hm]
    simpa [Indexed, hm] using h m'

/-! ## Registering keeps it -/

/-- **A new inner node holds no route.** -/
theorem represents_ofData (d : RouteNodeData) (u : Uninit) :
    Represents u (ofData d u false) [] := by
  refine .node ?_ ?_ ?_ List.Pairwise.nil ?_ ?_ ?_
  · simp [ofData]
  · intro m
    simp [ofData, Passes, Inner]
  · intro m
    exact Or.inr ⟨fun i => List.not_mem_nil, rfl⟩
  · simp [ofData, Starts]
  · simp [ofData]
  · simp [ofData]

/-- **A new leaf holds its one route**, and its mask nothing but the
method. -/
theorem represents_leaf {d : RouteNodeData} (hd : d.type ≠ .root) (u : Uninit)
    (m : HttpMethod) (index : ℕ) :
    Represents u
      ({ ofData d u true with methods := m.bit }.setIndex m index)
      [([], m, index)] := by
  refine .node ?_ ?_ ?_ List.Pairwise.nil ?_ ?_ ?_
  · simp [setIndex, ofData]
  · intro m'
    rw [Passes, Inner]
    simpa [setIndex, ofData, hd] using m.bit_and_bit m'
  · intro m'
    exact indexed_update (R := []) (fun _ => Or.inr
      ⟨fun i => List.not_mem_nil, rfl⟩) m'
  · simp [setIndex, ofData, Starts]
  · simp [setIndex, ofData]
  · simp [setIndex, ofData]

/-- Registering does not change what a node stands for. -/
@[simp] theorem data_insertLevels (u : Uninit) (n : RouteNode) (m : HttpMethod)
    (index : ℕ) (ds : List RouteNodeData) :
    (insertLevels u n m index ds).data = n.data := by
  cases ds <;> rfl

/-- The child looked for is the one that stands for the level. -/
theorem findIdx_eqData (children : List RouteNode) {d : RouteNodeData}
    (hd : d.type ≠ .root) :
    match children.findIdx? (fun child => child.data.eqData d) with
    | none => d ∉ children.map data
    | some i => ∃ h : i < children.length, children[i].data = d := by
  cases hfind : children.findIdx? (fun child => child.data.eqData d) with
  | none =>
    rw [List.findIdx?_eq_none_iff] at hfind
    rintro hmem
    obtain ⟨c, hc, rfl⟩ := List.mem_map.mp hmem
    exact Bool.false_ne_true
      ((hfind c hc).symm.trans ((RouteNodeData.eqData_iff hd).mpr rfl))
  | some i =>
    obtain ⟨hi, hdata, -⟩ := List.findIdx?_eq_some_iff_getElem.mp hfind
    exact ⟨hi, (RouteNodeData.eqData_iff hd).mp hdata⟩

section Insert

variable {u : Uninit} {n : RouteNode} {R : List Route} {m : HttpMethod}
  {index : ℕ} {d : RouteNodeData} {ds : List RouteNodeData}

/-- The order of the children that are there does not change. -/
theorem order_append {l : List RouteNodeData} (r : Route)
    (order : l.Pairwise (fun a b => firstAt a R < firstAt b R))
    (starts : ∀ a ∈ l, Starts a R) :
    l.Pairwise (fun a b => firstAt a (R ++ [r]) < firstAt b (R ++ [r])) := by
  refine List.Pairwise.imp_of_mem ?_ order
  intro a b ha hb hab
  rwa [firstAt_append (starts a ha), firstAt_append (starts b hb)]

/-- No two children stand for one level. -/
theorem nodup_of_order {l : List RouteNodeData}
    (order : l.Pairwise (fun a b => firstAt a R < firstAt b R)) : l.Nodup :=
  order.imp fun hlt => by
    rintro rfl
    exact lt_irrefl _ hlt

/-- A route that ends at a node. -/
theorem represents_end (h : Represents u n R)
    (hmade : R ≠ [] ∨ n.data.type = .root) :
    Represents u (insertLevels u n m index []) (R ++ [([], m, index)]) := by
  cases h with
  | node terminal methods indexed order starts types children =>
    refine .node ?_ ?_ (indexed_update indexed) ?_ ?_ types ?_
    · simp [insertLevels, setIndex]
    · intro m'
      show _ ↔ Passes u n.data.type (R ++ [([], m, index)]) m'
      rw [passes_append (hmade.imp_right Or.inl), ← methods]
      exact HttpMethod.or_bit_and_bit _ _ _
    · exact order_append _ order fun a ha => (starts a).mp ha
    · intro a
      rw [starts_append, ← starts a]
      simp [insertLevels, setIndex]
    · intro c hc
      rw [below_append, below_singleton_nil, List.append_nil]
      exact children c hc

/-- A route that goes on, with the children it leaves behind. -/
theorem represents_goOn (h : Represents u n R) {children' : List RouteNode}
    (order : (children'.map data).Pairwise
      (fun a b => firstAt a (R ++ [(d :: ds, m, index)])
        < firstAt b (R ++ [(d :: ds, m, index)])))
    (starts : ∀ a, a ∈ children'.map data ↔ a ∈ n.children.map data ∨ a = d)
    (hd : d.type ≠ .root)
    (children : ∀ c ∈ children', Represents (u.below c.data) c
      (below c.data (R ++ [(d :: ds, m, index)]))) :
    Represents u
      { n with methods := n.methods ||| m.bit, children := children' }
      (R ++ [(d :: ds, m, index)]) := by
  cases h with
  | node terminal methods indexed order' starts' types children'' =>
    refine .node ?_ ?_ ?_ order ?_ ?_ children
    · rw [terminal]
      simp
    · intro m'
      rw [passes_append (Or.inr (Or.inr (List.cons_ne_nil d ds))), ← methods]
      exact HttpMethod.or_bit_and_bit _ _ _
    · intro m'
      rw [indexed_append_cons]
      exact indexed m'
    · intro a
      rw [starts_append, ← starts' a]
      show a ∈ children'.map data ↔ _
      rw [starts a]
      simp [eq_comm]
    · intro c hc
      rcases (starts c.data).mp (List.mem_map_of_mem hc) with hmem | heq
      · obtain ⟨c', hc', hdata⟩ := List.mem_map.mp hmem
        rw [← hdata]
        exact types c' hc'
      · rw [heq]
        exact hd

variable {P : Uninit → RouteNode → List Route → Prop}

/-- **What holds of the children** goes on to hold when one more is made: the
route is below the new one only. -/
theorem children_append (hnew : d ∉ n.children.map data)
    (hstarts : ¬ Starts d R)
    (hall : ∀ c ∈ n.children, P (u.below c.data) c (below c.data R))
    {child : RouteNode} (hdata : child.data = d)
    (hchild : P (u.below d) child [(ds, m, index)]) :
    ∀ c ∈ n.children ++ [child], P (u.below c.data) c
      (below c.data (R ++ [(d :: ds, m, index)])) := by
  intro c hc
  rcases List.mem_append.mp hc with hold | hlast
  · have hne : d ≠ c.data := fun heq =>
      hnew (heq ▸ List.mem_map_of_mem hold)
    rw [below_append, below_singleton_ne hne, List.append_nil]
    exact hall c hold
  · rw [List.mem_singleton.mp hlast, hdata, below_append, below_eq_nil hstarts,
      below_singleton_self]
    exact hchild

/-- It goes on to hold when one of them takes the route. -/
theorem children_set (hnodup : (n.children.map data).Nodup) {i : ℕ}
    (hi : i < n.children.length) (hold : n.children[i].data = d)
    (hall : ∀ c ∈ n.children, P (u.below c.data) c (below c.data R))
    {child : RouteNode} (hdata : child.data = d)
    (hchild : P (u.below d) child (below d R ++ [(ds, m, index)])) :
    ∀ c ∈ n.children.set i child, P (u.below c.data) c
      (below c.data (R ++ [(d :: ds, m, index)])) := by
  intro c hc
  obtain ⟨j, hj, rfl⟩ := List.getElem_of_mem hc
  rw [List.length_set] at hj
  rw [List.getElem_set]
  split_ifs with hij
  · rw [hdata, below_append, below_singleton_self]
    exact hchild
  · -- two children never stand for one level
    have hne : d ≠ n.children[j].data := by
      intro heq
      have hi' : i < (n.children.map data).length := by simpa using hi
      have hj' : j < (n.children.map data).length := by simpa using hj
      refine hij ((@List.getElem_inj _ _ _ _ hi' hj' hnodup).mp ?_)
      rw [List.getElem_map, List.getElem_map, hold, heq]
    rw [below_append, below_singleton_ne hne, List.append_nil]
    exact hall _ (List.getElem_mem hj)

/-- A child for a level that has not come up yet goes to the end. -/
theorem represents_newChild (h : Represents u n R) (hd : d.type ≠ .root)
    (hnew : d ∉ n.children.map data) {child : RouteNode}
    (hdata : child.data = d)
    (hchild : Represents (u.below d) child [(ds, m, index)]) :
    Represents u
      { n with
        methods := n.methods ||| m.bit
        children := n.children ++ [child] }
      (R ++ [(d :: ds, m, index)]) := by
  have h' := h
  cases h with
  | node terminal methods indexed order starts types children =>
    refine represents_goOn h' ?_ ?_ hd ?_
    · rw [List.map_append, List.pairwise_append]
      refine ⟨order_append _ order fun a ha => (starts a).mp ha,
        List.pairwise_singleton _ _, ?_⟩
      intro a ha b hb
      rw [List.map_singleton, List.mem_singleton] at hb
      rw [hb, hdata, firstAt_append ((starts a).mp ha)]
      exact (firstAt_lt_length ((starts a).mp ha)).trans_le
        (length_le_firstAt (fun hs => hnew ((starts d).mpr hs)) _)
    · intro a
      rw [List.map_append, List.map_singleton, List.mem_append,
        List.mem_singleton, hdata]
    · exact children_append hnew (fun hs => hnew ((starts d).mpr hs)) children
        hdata hchild

/-- A child for a level that has come up is taken in its place. -/
theorem represents_oldChild (h : Represents u n R) (hd : d.type ≠ .root)
    {i : ℕ} (hi : i < n.children.length) (hold : n.children[i].data = d)
    {child : RouteNode} (hdata : child.data = d)
    (hchild : Represents (u.below d) child (below d R ++ [(ds, m, index)])) :
    Represents u
      { n with
        methods := n.methods ||| m.bit
        children := n.children.set i child }
      (R ++ [(d :: ds, m, index)]) := by
  have h' := h
  cases h with
  | node terminal methods indexed order starts types children =>
    have hmap : (n.children.set i child).map data = n.children.map data := by
      rw [List.map_set, hdata, ← hold, ← List.map_set, List.set_getElem_self]
    refine represents_goOn h' ?_ ?_ hd ?_
    · rw [hmap]
      exact order_append _ order fun a ha => (starts a).mp ha
    · intro a
      rw [hmap]
      refine (or_iff_left_of_imp ?_).symm
      rintro rfl
      rw [← hold]
      exact List.mem_map_of_mem (List.getElem_mem hi)
    · exact children_set (nodup_of_order order) hi hold children hdata hchild

end Insert

/-- **Registering a route adds it to the routes of the tree.** -/
theorem represents_insertLevels (m : HttpMethod) (index : ℕ)
    (ds : List RouteNodeData) (hds : ∀ d ∈ ds, d.type ≠ .root) {u : Uninit}
    {n : RouteNode} {R : List Route} (h : Represents u n R)
    (hmade : R ≠ [] ∨ n.data.type = .root ∨ ds ≠ []) :
    Represents u (insertLevels u n m index ds) (R ++ [(ds, m, index)]) := by
  induction ds generalizing u n R with
  | nil => exact represents_end h (hmade.imp_right (·.resolve_right (· rfl)))
  | cons d ds ih =>
    have hd := hds d List.mem_cons_self
    have hds' : ∀ d ∈ ds, d.type ≠ .root :=
      fun d' hd' => hds d' (List.mem_cons_of_mem d hd')
    have hfind := findIdx_eqData n.children hd
    rw [insertLevels]
    cases hidx : n.children.findIdx? (fun child => child.data.eqData d) with
    | none =>
      rw [hidx] at hfind
      by_cases hlast : ds = []
      · subst hlast
        exact represents_newChild h hd hfind rfl
          (represents_leaf hd (u.below d) m index)
      · simp only [if_neg hlast]
        refine represents_newChild h hd hfind (data_insertLevels _ _ _ _ _) ?_
        exact ih hds' (represents_ofData d (u.below d))
          (Or.inr (Or.inr hlast))
    | some i =>
      rw [hidx] at hfind
      obtain ⟨hi, hold⟩ := hfind
      have hget : n.children.getD i n = n.children[i] :=
        (List.getElem_eq_getD n).symm
      simp only [hget]
      refine represents_oldChild h hd hi hold
        ((data_insertLevels _ _ _ _ _).trans hold) ?_
      cases h with
      | node terminal methods indexed order starts types children =>
        have hmem := List.getElem_mem hi
        have hchild := children _ hmem
        have hstarts : Starts d R :=
          (starts d).mp (hold ▸ List.mem_map_of_mem hmem)
        rw [hold] at hchild
        exact ih hds' hchild (Or.inl (below_ne_nil hstarts))

/-! ## What a search finds

Below a node, the levels still to be matched are those of the path for the
root, and all but the first for the others. -/

/-- The nodes along a pattern let the method through. -/
def Open (u : Uninit) (type : RouteNodeData.Kind) (R : List Route)
    (m : HttpMethod) : List RouteNodeData → Prop
  | [] => Passes u type R m
  | d :: k => Passes u type R m ∧ Open (u.below d) d.type (below d R) m k

/-- **A pattern fits the levels of a path** when it accepts the first of
them; the path may go on. -/
def Fits : List RouteNodeData → List Bytes → Prop
  | [], _ => True
  | _ :: _, [] => False
  | d :: k, level :: levels => d.accepts level = true ∧ Fits k levels

/-- What the search may stop at: a registered pattern that fits and that the
method reaches. -/
def Candidate (u : Uninit) (type : RouteNodeData.Kind) (R : List Route)
    (m : HttpMethod) (levels : List Bytes) (k : List RouteNodeData) : Prop :=
  (∃ x, (k, x) ∈ R) ∧ Open u type R m k ∧ Fits k levels

/-- The index found at the node of a pattern. -/
def Answer (u : Uninit) (R : List Route) (m : HttpMethod)
    (k : List RouteNodeData) (i : ℕ) : Prop :=
  (∃ index, (k, m, index) ∈ R ∧ i = (UInt16.ofNat index).toNat) ∨
    ((∀ index, (k, m, index) ∉ R) ∧ i = ((u k).2 m).toNat)

/-- **The search stops at the first candidate**, if there is one. -/
def FindsFirst (u : Uninit) (R : List Route) (m : HttpMethod)
    (C : List RouteNodeData → Prop) : Found → Prop
  | none => ∀ k, ¬ C k
  | some i => ∃ k, C k ∧ Answer u R m k i ∧ ∀ j, C j → ¬ Precedes R j k

/-- The levels a node hands to its children. -/
def handedOn (n : RouteNode) (levels : List Bytes) : List Bytes :=
  if n.data.type = .root then levels else levels.tail

theorem handedOn_eq (n : RouteNode) (levels : List Bytes) :
    n.handedOn levels = n.data.levelsBehind levels := rfl

/-- **The way leads to the first candidate**, if there is one; the nodes above
the one that is searched stand for the levels `above`. -/
def StopsFirst (u : Uninit) (R : List Route) (m : HttpMethod)
    (above : List RouteNodeData) (C : List RouteNodeData → Prop) :
    Option Way → Prop
  | none => ∀ k, ¬ C k
  | some w => ∃ k, w.pattern = above ++ k ∧ C k ∧ Answer u R m k (w.answer m)
      ∧ ∀ j, C j → ¬ Precedes R j k

/-- The same candidates, the same answer. -/
theorem findsFirst_congr {u : Uninit} {R : List Route} {m : HttpMethod}
    {C C' : List RouteNodeData → Prop} {found : Found}
    (h : ∀ k, C k ↔ C' k) :
    FindsFirst u R m C found ↔ FindsFirst u R m C' found := by
  rw [funext fun k => propext (h k)]

/-- The same candidates, the same way. -/
theorem stopsFirst_congr {u : Uninit} {R : List Route} {m : HttpMethod}
    {above : List RouteNodeData} {C C' : List RouteNodeData → Prop}
    {w : Option Way} (h : ∀ k, C k ↔ C' k) :
    StopsFirst u R m above C w ↔ StopsFirst u R m above C' w := by
  rw [funext fun k => propext (h k)]

/-- A method that reaches the node of a pattern gets into the tree. -/
theorem Open.passes {u : Uninit} {type : RouteNodeData.Kind} {R : List Route}
    {m : HttpMethod} {k : List RouteNodeData} (h : Open u type R m k) :
    Passes u type R m := by
  cases k with
  | nil => exact h
  | cons d k => exact h.1

/-- The patterns a search of the node may stop at. -/
def NodeCandidate (u : Uninit) (n : RouteNode) (R : List Route)
    (m : HttpMethod) (levels : List Bytes) (k : List RouteNodeData) : Prop :=
  n.data.accepts (levels.headD []) = true ∧
    Candidate u n.data.type R m (n.handedOn levels) k

/-- The patterns a search of these children may stop at. -/
def ChildCandidate (u : Uninit) (children : List RouteNode) (R : List Route)
    (m : HttpMethod) (levels : List Bytes) (k : List RouteNodeData) : Prop :=
  ∃ c ∈ children, ∃ k', k = c.data :: k' ∧
    NodeCandidate (u.below c.data) c (below c.data R) m levels k'

/-- What is found below a child is found below the node. -/
theorem answer_below {u : Uninit} {R : List Route} {m : HttpMethod}
    {d : RouteNodeData} {k : List RouteNodeData} {i : ℕ} :
    Answer (u.below d) (below d R) m k i ↔ Answer u R m (d :: k) i := by
  simp only [Answer, mem_below]
  rfl

/-- **The children are searched in order**: those whose levels came up
earlier have no candidate when a later one is asked. -/
theorem wayChildren_stopsFirst {u : Uninit} {R : List Route}
    {m : HttpMethod} {levels : List Bytes} (children : List RouteNode)
    (order : (children.map data).Pairwise
      (fun a b => firstAt a R < firstAt b R))
    (hstops : ∀ c ∈ children, StopsFirst (u.below c.data)
      (below c.data R) m [c.data]
      (NodeCandidate (u.below c.data) c (below c.data R) m levels)
      (c.way m levels)) :
    StopsFirst u R m [] (ChildCandidate u children R m levels)
      (wayChildren children m levels) := by
  induction children with
  | nil =>
    rintro k ⟨c, hc, -⟩
    exact List.not_mem_nil hc
  | cons c cs ih =>
    rw [List.map_cons, List.pairwise_cons] at order
    have hlater : ∀ c' ∈ cs, firstAt c.data R < firstAt c'.data R :=
      fun c' hc' => order.1 _ (List.mem_map_of_mem hc')
    have hhead := hstops c List.mem_cons_self
    have htail := ih order.2 (fun c' hc' =>
      hstops c' (List.mem_cons_of_mem c hc'))
    rw [wayChildren]
    cases hway : c.way m levels with
    | some w =>
      rw [hway] at hhead
      obtain ⟨k, hpattern, hcand, hans, hfirst⟩ := hhead
      refine ⟨c.data :: k, hpattern, ⟨c, List.mem_cons_self, k, rfl, hcand⟩,
        answer_below.mp hans, ?_⟩
      rintro j ⟨c', hc', j, rfl, hj⟩ hprec
      rcases List.mem_cons.mp hc' with rfl | hc'
      · rw [Precedes, if_pos rfl] at hprec
        exact hfirst j hj hprec
      · have hlt := hlater c' hc'
        have hne : c'.data ≠ c.data := fun h => absurd hlt (h ▸ lt_irrefl _)
        rw [Precedes, if_neg hne] at hprec
        exact absurd hprec hlt.not_gt
    | none =>
      rw [hway] at hhead
      have hcons : ∀ k, ChildCandidate u (c :: cs) R m levels k ↔
          ChildCandidate u cs R m levels k := by
        intro k
        constructor
        · rintro ⟨c', hc', k, rfl, hk⟩
          rcases List.mem_cons.mp hc' with rfl | hc'
          · exact absurd hk (hhead k)
          · exact ⟨c', hc', k, rfl, hk⟩
        · rintro ⟨c', hc', h⟩
          exact ⟨c', List.mem_cons_of_mem c hc', h⟩
      exact (stopsFirst_congr hcons).mpr htail

/-- The patterns that go on from a node are those its children may stop
at. -/
theorem nodeCandidate_cons {u : Uninit} {n : RouteNode} {R : List Route}
    {m : HttpMethod} {levels : List Bytes} (hpasses : Passes u n.data.type R m)
    (haccepts : n.data.accepts (levels.headD []) = true)
    (hnext : n.handedOn levels ≠ [])
    (starts : ∀ d, d ∈ n.children.map data ↔ Starts d R)
    (types : ∀ c ∈ n.children, c.data.type ≠ .root)
    (k : List RouteNodeData) :
    (k ≠ [] ∧ NodeCandidate u n R m levels k) ↔
      ChildCandidate u n.children R m (n.handedOn levels) k := by
  obtain ⟨level, rest, hlevels⟩ := List.exists_cons_of_ne_nil hnext
  have hdown : ∀ c ∈ n.children, c.handedOn (n.handedOn levels) = rest := by
    intro c hc
    rw [handedOn, if_neg (types c hc), hlevels, List.tail_cons]
  constructor
  · rintro ⟨hne, -, ⟨x, hx⟩, hopen, hfits⟩
    obtain ⟨d, k, rfl⟩ := List.exists_cons_of_ne_nil hne
    obtain ⟨c, hc, rfl⟩ := List.mem_map.mp ((starts d).mpr ⟨_, hx, rfl⟩)
    rw [hlevels] at hfits
    refine ⟨c, hc, k, rfl, ?_, ⟨x, (mem_below _ _ _ _).mpr hx⟩, hopen.2, ?_⟩
    · rw [hlevels]
      exact hfits.1
    · rw [hdown c hc]
      exact hfits.2
  · rintro ⟨c, hc, k, rfl, hlevel, ⟨x, hx⟩, hopen, hfits⟩
    rw [hdown c hc] at hfits
    rw [hlevels] at hlevel
    refine ⟨List.cons_ne_nil _ _, haccepts, ⟨x, (mem_below _ _ _ _).mp hx⟩,
      ⟨hpasses, hopen⟩, ?_⟩
    rw [hlevels]
    exact ⟨hlevel, hfits⟩

/-- **The way of a search leads to the first candidate.** -/
theorem way_stopsFirst {u : Uninit} {n : RouteNode} {R : List Route}
    (h : Represents u n R) (m : HttpMethod) (levels : List Bytes) :
    StopsFirst u R m [n.data] (NodeCandidate u n R m levels)
      (n.way m levels) := by
  induction h generalizing levels with
  | @node u n R terminal methods index order starts types children ih =>
    rcases way_cases n m levels with ⟨hway, hblocked⟩ | hpasses
    · -- the mask or the level turns the request away
      rw [hway]
      rintro k ⟨haccepts, -, hopen, -⟩
      rcases hblocked with hm | hlevel
      · exact (methods m).mpr hopen.passes hm
      · exact Bool.false_ne_true (hlevel.symm.trans haccepts)
    · obtain ⟨hm, haccepts, down, hdown, hway⟩ := hpasses
      rw [hway]
      rw [← handedOn_eq] at hdown
      have hchildren := wayChildren_stopsFirst n.children order
        (fun c hc => ih c hc (n.handedOn levels))
      -- the patterns found below are those that go on
      have hgoOn : StopsFirst u R m [] (fun k => k ≠ [] ∧
          NodeCandidate u n R m levels k) down := by
        rw [hdown]
        by_cases hnext : n.handedOn levels = []
        · rw [if_pos hnext]
          rintro (_ | ⟨d, k⟩) ⟨hne, -, -, -, hfits⟩
          · exact hne rfl
          · rw [hnext] at hfits
            exact hfits
        · rw [if_neg hnext]
          exact (stopsFirst_congr (nodeCandidate_cons ((methods m).mp hm)
            haccepts hnext starts types)).mpr hchildren
      cases down with
      | some w =>
        obtain ⟨k, hpattern, ⟨-, hk⟩, hans, hfirst⟩ := hgoOn
        refine ⟨k, congrArg (n.data :: ·) hpattern, hk, hans, ?_⟩
        rintro (_ | ⟨d, j⟩) hj
        · cases k <;> exact id
        · exact hfirst _ ⟨List.cons_ne_nil d j, hj⟩
      | none =>
        by_cases hterm : n.terminal = true
        · simp only [hterm, if_true]
          obtain ⟨r, hr, hend⟩ := terminal.mp hterm
          refine ⟨[], rfl,
            ⟨haccepts, ⟨r.2, hend ▸ hr⟩, (methods m).mp hm, trivial⟩, ?_, ?_⟩
          · rcases index m with ⟨i, hi, hx⟩ | ⟨hno, hx⟩
            · exact Or.inl ⟨i, hi, by rw [Way.answer, hx]⟩
            · exact Or.inr ⟨hno, by rw [Way.answer, hx]⟩
          · rintro (_ | ⟨d, j⟩) hj
            · exact id
            · exact absurd ⟨List.cons_ne_nil d j, hj⟩ (hgoOn _)
        · simp only [hterm]
          rintro (_ | ⟨d, j⟩) hj
          · obtain ⟨-, ⟨x, hx⟩, -⟩ := hj
            exact hterm (terminal.mpr ⟨_, hx, rfl⟩)
          · exact hgoOn _ ⟨List.cons_ne_nil d j, hj⟩

/-- **What `match` finds**: the entry of the first candidate. -/
theorem search_findsFirst {u : Uninit} {n : RouteNode} {R : List Route}
    (h : Represents u n R) (m : HttpMethod) (levels : List Bytes)
    (vars : List Bytes) :
    FindsFirst u R m (NodeCandidate u n R m levels)
      (search n m levels vars).1 := by
  have hstops := way_stopsFirst h m levels
  rw [search_eq]
  cases hway : n.way m levels with
  | none =>
    rw [hway] at hstops
    exact hstops
  | some w =>
    rw [hway] at hstops
    obtain ⟨k, -, hk, hans, hfirst⟩ := hstops
    exact ⟨k, hk, hans, hfirst⟩

end RouteNode
