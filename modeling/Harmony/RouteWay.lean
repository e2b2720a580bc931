import Harmony.Router

/-!
# The way of a request through the tree

A search that succeeds has gone from a node down to the one that answers
(`RouteNode.way`), and one that fails has come back to where it began. What
`match` leaves in the vector of captured levels is read off the way alone:
every node on it that stands for a parameter has captured its level, and the
nodes that were tried in between have given theirs back
(`RouteNode.matchPath_captures`).
-/

namespace RouteNodeData

/-- Whether a level is captured. -/
def isParam (d : RouteNodeData) : Bool :=
  match d.type with
  | .paramInt => true
  | .paramFloat => true
  | .paramString => true
  | _ => false

/-- What is captured of a level. -/
def capture (d : RouteNodeData) (level : Bytes) : List (RouteNodeData × Bytes) :=
  if d.isParam then [(d, level)] else []

/-- The levels behind the one a node stands for; a root stands for none. -/
def levelsBehind (d : RouteNodeData) (levels : List Bytes) : List Bytes :=
  if d.type = .root then levels else levels.tail

/-- **What the parameters of a pattern capture**, each with its level. -/
def captured : List RouteNodeData → List Bytes → List (RouteNodeData × Bytes)
  | [], _ => []
  | d :: ds, levels =>
    d.capture (levels.headD []) ++ captured ds (d.levelsBehind levels)

/-- **The captured levels**, as they stand in the vector. -/
def captures (pattern : List RouteNodeData) (levels : List Bytes) : List Bytes :=
  (captured pattern levels).map Prod.snd

theorem captures_cons (d : RouteNodeData) (ds : List RouteNodeData)
    (levels : List Bytes) :
    captures (d :: ds) levels
      = (d.capture (levels.headD [])).map Prod.snd
        ++ captures ds (d.levelsBehind levels) :=
  List.map_append

theorem captures_singleton (d : RouteNodeData) (levels : List Bytes) :
    captures [d] levels = (d.capture (levels.headD [])).map Prod.snd := by
  rw [captures_cons]
  exact List.append_nil _

/-- A level that passes is captured behind the others. -/
theorem enter_eq (d : RouteNodeData) (level : Bytes) (vars : List Bytes) :
    d.enter level vars
      = if d.accepts level then some (vars ++ (d.capture level).map Prod.snd)
        else none := by
  unfold accepts enter capture isParam
  cases d.type with
  | root => simp
  | constant =>
    by_cases hstar : d.label = bytes "*"
    · simp [hstar]
    · by_cases hlabel : d.label = level <;> simp [hstar, hlabel]
  | paramInt => cases hall : level.all isDigit <;> simp
  | paramFloat => cases hfloat : isFloat 0 level <;> simp
  | paramString => simp

/-- What was captured is given back. -/
theorem leave_capture (d : RouteNodeData) (level : Bytes) (vars : List Bytes) :
    d.leave (vars ++ (d.capture level).map Prod.snd) = vars := by
  unfold leave capture isParam
  cases d.type <;> simp

/-- **One level is captured for each parameter.** -/
theorem length_captured (pattern : List RouteNodeData) (levels : List Bytes) :
    (captured pattern levels).length = pattern.countP isParam := by
  induction pattern generalizing levels with
  | nil => rfl
  | cons d ds ih =>
    rw [captured, List.length_append, ih, List.countP_cons, capture]
    split_ifs with h
    · rw [List.length_singleton, Nat.add_comm]
    · rw [List.length_nil, Nat.zero_add, Nat.add_zero]

end RouteNodeData

open RouteNodeData (captured captures levelsBehind)

/-- **A way down the tree**: the nodes that were passed, and the one that
answered. -/
structure Way where
  passed : List RouteNode
  last : RouteNode

namespace Way

/-- All nodes of a way. -/
def nodes (w : Way) : List RouteNode := w.passed ++ [w.last]

/-- What the nodes of a way ask for. -/
def pattern (w : Way) : List RouteNodeData := w.nodes.map RouteNode.data

/-- The way that starts one node further up. -/
def below (n : RouteNode) (w : Way) : Way := ⟨n :: w.passed, w.last⟩

/-- The index that is found at its end. -/
def answer (w : Way) (m : HttpMethod) : ℕ := (w.last.routeIndex m).toNat

end Way

namespace RouteNode

mutual

/-- **The way a search takes**, if it succeeds. -/
def way : RouteNode → HttpMethod → List Bytes → Option Way
  | ⟨data, terminal, methods, routeIndex, children⟩, m, levels =>
    if methods &&& m.bit = 0 then none
    else if data.accepts (levels.headD []) = false then none
    else
      match (if data.levelsBehind levels ≠ [] then
          wayChildren children m (data.levelsBehind levels) else none) with
      | some w => some (.below ⟨data, terminal, methods, routeIndex, children⟩ w)
      | none =>
        if terminal then
          some ⟨[], ⟨data, terminal, methods, routeIndex, children⟩⟩
        else none

/-- The way from the first child that has one. -/
def wayChildren : List RouteNode → HttpMethod → List Bytes → Option Way
  | [], _, _ => none
  | child :: children, m, levels =>
    match way child m levels with
    | some w => some w
    | none => wayChildren children m levels

end

/-- What a search makes of a way. -/
def found (m : HttpMethod) (levels vars : List Bytes) :
    Option Way → Found × List Bytes
  | none => (none, vars)
  | some w => (some (w.answer m), vars ++ captures w.pattern levels)

mutual

/-- **A search is its way.** -/
theorem search_eq (n : RouteNode) (m : HttpMethod) (levels vars : List Bytes) :
    search n m levels vars = found m levels vars (n.way m levels) := by
  cases n with
  | mk data terminal methods routeIndex children =>
    rw [search, way, RouteNodeData.enter_eq]
    by_cases hm : methods &&& m.bit = 0
    · rw [if_pos hm, if_pos hm]
      rfl
    · rw [if_neg hm, if_neg hm]
      cases haccepts : data.accepts (levels.headD []) with
      | false => rfl
      | true =>
        simp only [if_true, Bool.true_eq_false, if_false]
        rw [← levelsBehind]
        -- the node itself, when no child has answered
        have hself : (if terminal then
              (some (routeIndex m).toNat,
                vars ++ (data.capture (levels.headD [])).map Prod.snd)
            else (none, data.leave
              (vars ++ (data.capture (levels.headD [])).map Prod.snd)))
            = found m levels vars (if terminal then
              some ⟨[], ⟨data, terminal, methods, routeIndex, children⟩⟩
              else none) := by
          cases terminal with
          | false => rw [RouteNodeData.leave_capture]; rfl
          | true => rw [← RouteNodeData.captures_singleton]; rfl
        by_cases hnext : data.levelsBehind levels = []
        · simp only [hnext, ne_eq, not_true, if_false]
          exact hself
        · simp only [ne_eq, hnext, not_false_eq_true, if_true,
            searchChildren_eq children]
          cases wayChildren children m (data.levelsBehind levels) with
          | none => exact hself
          | some w =>
            show (some (w.answer m), (vars ++ _) ++ captures w.pattern _) = _
            rw [List.append_assoc, ← RouteNodeData.captures_cons]
            rfl

theorem searchChildren_eq (children : List RouteNode) (m : HttpMethod)
    (levels vars : List Bytes) :
    searchChildren children m levels vars
      = found m levels vars (wayChildren children m levels) := by
  cases children with
  | nil => rfl
  | cons child children =>
    rw [searchChildren, wayChildren, search_eq child]
    cases way child m levels with
    | none =>
      simp only [found, ne_eq, not_true, if_false]
      exact searchChildren_eq children m levels vars
    | some w => rfl

end

/-! ## Where a way leads -/

/-- **A way leads down to a node that may answer**: every node on it lets the
method through and accepts its level, each is a child of the one before, with
levels left for it, and a route ends at the last one. -/
inductive Leads (m : HttpMethod) : RouteNode → List Bytes → Way → Prop
  | here {n : RouteNode} {levels : List Bytes}
      (passes : n.methods &&& m.bit ≠ 0)
      (accepts : n.data.accepts (levels.headD []) = true)
      (terminal : n.terminal = true) : Leads m n levels ⟨[], n⟩
  | further {n : RouteNode} {levels : List Bytes} {c : RouteNode} {w : Way}
      (passes : n.methods &&& m.bit ≠ 0)
      (accepts : n.data.accepts (levels.headD []) = true)
      (behind : n.data.levelsBehind levels ≠ []) (child : c ∈ n.children)
      (leads : Leads m c (n.data.levelsBehind levels) w) :
      Leads m n levels (.below n w)

/-- **The way from a node**: the mask or the level turns the request away, or
the children are asked first, if there are levels left, and the node answers if
none of them does. -/
theorem way_cases (n : RouteNode) (m : HttpMethod) (levels : List Bytes) :
    n.way m levels = none ∧
        (n.methods &&& m.bit = 0 ∨ n.data.accepts (levels.headD []) = false) ∨
      n.methods &&& m.bit ≠ 0 ∧ n.data.accepts (levels.headD []) = true ∧
        ∃ down, down = (if n.data.levelsBehind levels = [] then none
            else wayChildren n.children m (n.data.levelsBehind levels)) ∧
          n.way m levels = match down with
            | some w => some (.below n w)
            | none => if n.terminal then some ⟨[], n⟩ else none := by
  cases n with
  | mk data terminal methods routeIndex children =>
    rw [way]
    by_cases hpasses : methods &&& m.bit = 0
    · exact Or.inl ⟨if_pos hpasses, Or.inl hpasses⟩
    · rw [if_neg hpasses]
      cases haccepts : data.accepts (levels.headD []) with
      | false => exact Or.inl ⟨rfl, Or.inr rfl⟩
      | true =>
        rw [if_neg Bool.false_ne_true.symm, ite_not]
        exact Or.inr ⟨hpasses, rfl, _, rfl, rfl⟩

mutual

/-- The way of a search leads to the node that answers. -/
theorem leads_of_way {n : RouteNode} {m : HttpMethod} {levels : List Bytes}
    {w : Way} (h : n.way m levels = some w) : Leads m n levels w := by
  cases n with
  | mk data terminal methods routeIndex children =>
    rcases way_cases ⟨data, terminal, methods, routeIndex, children⟩ m levels
      with ⟨hnone, -⟩ | ⟨hpasses, haccepts, down, hdown, heq⟩
    · rw [hnone] at h
      cases h
    · rw [heq] at h
      cases down with
      | none =>
        dsimp only at h
        split_ifs at h with hterminal
        cases h
        exact .here hpasses haccepts hterminal
      | some w' =>
        cases h
        split_ifs at hdown with hbehind
        have hway : wayChildren children m (data.levelsBehind levels) = some w' :=
          hdown.symm
        obtain ⟨c, hc, hleads⟩ := exists_leads_of_wayChildren hway
        exact .further hpasses haccepts hbehind hc hleads

theorem exists_leads_of_wayChildren {children : List RouteNode}
    {m : HttpMethod} {levels : List Bytes} {w : Way}
    (h : wayChildren children m levels = some w) :
    ∃ c ∈ children, Leads m c levels w := by
  cases children with
  | nil => cases h
  | cons child children =>
    rw [wayChildren] at h
    cases hway : way child m levels with
    | some w' =>
      rw [hway] at h
      cases h
      exact ⟨child, List.mem_cons_self, leads_of_way hway⟩
    | none =>
      rw [hway] at h
      obtain ⟨c, hc, hleads⟩ := exists_leads_of_wayChildren h
      exact ⟨c, List.mem_cons_of_mem child hc, hleads⟩

end

/-- A path without a slash in front is turned away by the mask or fails the
assertion. -/
theorem matchPath_of_head_ne (n : RouteNode) (m : HttpMethod) {path : Bytes}
    (h : path.head? ≠ some slash) (vars : List Bytes) :
    n.matchPath m path vars
      = if n.methods &&& m.bit = 0 then .ok (none, vars)
        else .error .assertion := by
  cases n with
  | mk data terminal methods routeIndex children =>
    rw [matchPath.eq_def]
    dsimp only
    rw [if_pos h]

/-- **What `match` leaves in the vector**: nothing new if it fails, and else the
levels of the parameters on the way to the node that answered. Only a path
without a slash in front keeps it from returning. -/
theorem matchPath_captures (n : RouteNode) (m : HttpMethod) (path : Bytes)
    (vars : List Bytes) :
    match n.matchPath m path vars with
    | .error _ => path.head? ≠ some slash
    | .ok (none, out) => out = vars
    | .ok (some i, out) => ∃ w, n.way m (levelsOf path.tail) = some w
        ∧ Leads m n (levelsOf path.tail) w ∧ i = w.answer m
        ∧ out = vars ++ captures w.pattern (levelsOf path.tail)
        ∧ (captures w.pattern (levelsOf path.tail)).length
          = w.pattern.countP RouteNodeData.isParam := by
  by_cases hslash : path.head? = some slash
  · obtain ⟨rest, rfl⟩ := List.head?_eq_some_iff.mp hslash
    rw [matchPath_eq, search_eq, List.tail_cons]
    cases hway : n.way m (levelsOf rest) with
    | none => rfl
    | some w =>
      refine ⟨w, rfl, leads_of_way hway, rfl, rfl, ?_⟩
      rw [captures, List.length_map, RouteNodeData.length_captured]
  · rw [matchPath_of_head_ne n m hslash vars]
    by_cases hpasses : n.methods &&& m.bit = 0
    · rw [if_pos hpasses]
    · rw [if_neg hpasses]
      exact hslash

end RouteNode
