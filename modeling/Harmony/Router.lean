import Harmony.StringView

/-!
# The route tree

Routes are kept in a tree with one node per path level. `insert_path` walks
down along the levels of a registered path, making the nodes that are
missing; `match` walks down along the levels of a request path, trying the
children of a node in the order in which they were made and backing out of
those that fail.

Three members of a node decide whether it answers a request: `methods`, a
mask of the methods registered at the node or anywhere below it, `terminal`,
one flag for all methods, and `route_index`, one entry per method. The
constructors leave `methods` and `route_index` uninitialised; what is in
memory there is a parameter of the model (`Uninit`).

Both functions cut their path at the next slash. `levelsOf` is the list of
all the levels they will see, and `RouteNode.insertPath_eq` and
`RouteNode.matchPath_eq` say that the functions only depend on it; what
follows works on lists of levels.
-/

/-- The request methods. -/
inductive HttpMethod where
  | get
  | post
  | put
  | head
  | patch
  | delete
  | options
  deriving DecidableEq, Repr

/-- The number of a method. -/
def HttpMethod.toNat : HttpMethod → ℕ
  | .get => 0
  | .post => 1
  | .put => 2
  | .head => 3
  | .patch => 4
  | .delete => 5
  | .options => 6

/-- The bit of a method in a mask, `1 << m`. -/
def HttpMethod.bit (m : HttpMethod) : BitVec 32 := 1#32 <<< m.toNat

/-! ## The levels of a path -/

/-- The first level of a path, up to the next slash. -/
def firstLevel (path : Bytes) : Bytes := path.tail.takeWhile (· ≠ slash)

/-- What is left of a path after its first level, `"/"` where there is no
further slash. -/
def nextPath (path : Bytes) : Bytes :=
  match path.tail.dropWhile (· ≠ slash) with
  | [] => [slash]
  | c :: rest => c :: rest

/-- **The levels of a path**, given by what follows its opening slash. One
trailing slash makes no level of its own. -/
def levelsOf : Bytes → List Bytes
  | [] => []
  | c :: rest =>
    if c = slash then
      [] :: levelsOf rest
    else
      match levelsOf rest with
      | [] => [[c]]
      | level :: levels => (c :: level) :: levels

/-- The next path, as what follows its opening slash. -/
def afterLevel (rest : Bytes) : Bytes := (rest.dropWhile (· ≠ slash)).tail

/-- The next path starts with a slash. -/
theorem nextPath_cons (c : UInt8) (rest : Bytes) :
    nextPath (c :: rest) = slash :: afterLevel rest := by
  unfold nextPath afterLevel
  rw [List.tail_cons]
  cases h : rest.dropWhile (· ≠ slash) with
  | nil => rfl
  | cons d ds =>
    have hne : rest.dropWhile (· ≠ slash) ≠ [] := by
      rw [h]
      exact List.cons_ne_nil d ds
    have hd := List.head_dropWhile_not (· ≠ slash) hne
    simp only [h, List.head_cons, ne_eq, decide_eq_false_iff_not,
      not_not] at hd
    rw [hd, List.tail_cons]

/-- **The levels of a path are its first level and those of the next
path.** -/
theorem levelsOf_eq {rest : Bytes} (h : rest ≠ []) :
    levelsOf rest
      = rest.takeWhile (· ≠ slash) :: levelsOf (afterLevel rest) := by
  induction rest with
  | nil => exact absurd rfl h
  | cons c rest ih =>
    by_cases hc : c = slash
    · simp [levelsOf, afterLevel, hc]
    · cases rest with
      | nil => simp [levelsOf, afterLevel, hc]
      | cons d ds =>
        rw [levelsOf, if_neg hc, ih (by simp)]
        simp [afterLevel, hc]

/-- The next path is shorter. -/
theorem length_afterLevel_lt {rest : Bytes} (h : rest ≠ []) :
    (afterLevel rest).length < rest.length := by
  have hle := (List.dropWhile_suffix (l := rest) (· ≠ slash)).length_le
  have hpos := List.length_pos_of_ne_nil h
  rw [afterLevel, List.length_tail]
  omega

/-- A path without levels is the bare slash. -/
@[simp] theorem levelsOf_eq_nil_iff (rest : Bytes) :
    levelsOf rest = [] ↔ rest = [] := by
  refine ⟨fun h => ?_, fun h => by rw [h]; rfl⟩
  by_contra hne
  rw [levelsOf_eq hne] at h
  cases h

/-! ## The nodes -/

/-- The kinds of level. -/
inductive RouteNodeData.Kind where
  | root
  | constant
  | paramInt
  | paramFloat
  | paramString
  deriving DecidableEq, Repr

/-- **What a node asks of the level it stands for.** -/
structure RouteNodeData where
  /-- The kind of level. -/
  type : RouteNodeData.Kind
  /-- The text of a constant level, or the name of a parameter. -/
  label : Bytes
  deriving DecidableEq, Repr

namespace RouteNodeData

/-- `operator==`: the label of a root is not compared. -/
def eqData (a b : RouteNodeData) : Bool :=
  a.type == b.type && (a.type == .root || a.label == b.label)

theorem eqData_iff {a b : RouteNodeData} (h : b.type ≠ .root) :
    a.eqData b = true ↔ a = b := by
  cases a
  cases b
  simp only [eqData, Bool.and_eq_true, Bool.or_eq_true, beq_iff_eq,
    RouteNodeData.mk.injEq]
  constructor
  · rintro ⟨rfl, hl⟩
    exact ⟨rfl, hl.resolve_left h⟩
  · rintro ⟨rfl, rfl⟩
    exact ⟨rfl, Or.inr rfl⟩

/-- The data of a registered level: `{name}`, `{name:int}` and
`{name:float}` are parameters, anything else is a constant. -/
def ofLevel (level : Bytes) : RouteNodeData :=
  if level.head? = some 123 ∧ level.getLast? = some 125 then
    let typeEnd := level.length - 1
    match level.findIdx? (· == 58) with
    | none => ⟨.paramString, slice level 1 (typeEnd - 1)⟩
    | some typeBeg =>
      let type := slice level (typeBeg + 1) (typeEnd - typeBeg - 1)
      ⟨if type = bytes "int" then .paramInt
        else if type = bytes "float" then .paramFloat
        else .paramString,
        slice level 1 (typeBeg - 1)⟩
  else
    ⟨.constant, level⟩

/-- No registered level is a root. -/
theorem type_ofLevel (level : Bytes) : (ofLevel level).type ≠ .root := by
  unfold ofLevel
  split_ifs
  · split
    · simp
    · dsimp only
      split_ifs <;> simp
  · simp

/-- `std::isdigit`. -/
def isDigit (ch : UInt8) : Bool := 48 ≤ ch && ch ≤ 57

/-- The loop over the characters of a `{x:float}` level, which counts the
dots it has met. -/
def isFloat (nDot : ℕ) : Bytes → Bool
  | [] => true
  | ch :: level =>
    if !isDigit ch && ch != 46 then false
    else if ch = 46 then
      if nDot ≠ 0 then false else isFloat (nDot + 1) level
    else isFloat nDot level

/-- The first `switch` of `match`: whether the level passes, and the
captured levels after it. -/
def enter (d : RouteNodeData) (level : Bytes) (vars : List Bytes) :
    Option (List Bytes) :=
  match d.type with
  | .root => some vars
  | .constant =>
    if d.label = bytes "*" then some vars
    else if d.label ≠ level then none
    else some vars
  | .paramInt => if level.all isDigit then some (vars ++ [level]) else none
  | .paramFloat => if isFloat 0 level then some (vars ++ [level]) else none
  | .paramString => some (vars ++ [level])

/-- The last `switch` of `match`: a parameter gives its capture back. -/
def leave (d : RouteNodeData) (vars : List Bytes) : List Bytes :=
  match d.type with
  | .paramInt => vars.dropLast
  | .paramFloat => vars.dropLast
  | .paramString => vars.dropLast
  | _ => vars

/-- Whether a level passes. -/
def accepts (d : RouteNodeData) (level : Bytes) : Bool :=
  (d.enter level []).isSome

end RouteNodeData

/-- **A node of the route tree.** The eighth entry of `route_index` belongs
to no method. -/
structure RouteNode where
  data : RouteNodeData
  /-- Whether a route ends here. -/
  terminal : Bool
  /-- The methods registered here or below. -/
  methods : BitVec 32
  /-- The handler of each method, where a route of it ends here. -/
  routeIndex : HttpMethod → UInt16
  children : List RouteNode

/-- **What the constructors leave uninitialised**, per node: the mask and
the handler indices found in memory when the node of a level sequence is
made. -/
abbrev Uninit := List RouteNodeData → BitVec 32 × (HttpMethod → UInt16)

/-- What is uninitialised below a level. -/
def Uninit.below (u : Uninit) (d : RouteNodeData) : Uninit :=
  fun k => u (d :: k)

namespace RouteNode

/-- The index of no handler is `npos`: `match` returns an entry of
`route_index`, and those have 16 bits. -/
abbrev Found := Option ℕ

/-- The root a router starts with. -/
def root (u : Uninit) : RouteNode where
  data := ⟨.root, []⟩
  terminal := false
  methods := (u []).1
  routeIndex := (u []).2
  children := []

/-- A node as its constructor leaves it, with the flag its maker sets. -/
def ofData (d : RouteNodeData) (u : Uninit) (terminal : Bool) : RouteNode where
  data := d
  terminal := terminal
  methods := (u []).1
  routeIndex := (u []).2
  children := []

/-- Registers a handler at a node. -/
def setIndex (n : RouteNode) (m : HttpMethod) (index : ℕ) : RouteNode :=
  { n with routeIndex := Function.update n.routeIndex m (UInt16.ofNat index) }

/-- **`RouteNode::insert_path`.** -/
def insertPath (u : Uninit) (n : RouteNode) (m : HttpMethod) (path : Bytes)
    (index : ℕ) : Except Fault RouteNode :=
  match path with
  | [] => .error .assertion
  | c :: rest =>
    let self := { n with methods := n.methods ||| m.bit }
    if c ≠ slash then
      .error .assertion
    else if _h : firstLevel (c :: rest) ≠ [] then do
      let next := nextPath (c :: rest)
      let d := RouteNodeData.ofLevel (firstLevel (c :: rest))
      match self.children.findIdx? (fun child => child.data.eqData d) with
      | none =>
        let child ←
          if next = [slash] then
            .ok ({ ofData d (u.below d) true with
              methods := m.bit }.setIndex m index)
          else
            insertPath (u.below d) (ofData d (u.below d) false) m next index
        .ok { self with children := self.children ++ [child] }
      | some i =>
        let child := self.children.getD i n
        let child ←
          if next = [slash] then
            .ok ({ child with
              terminal := true
              methods := child.methods ||| m.bit }.setIndex m index)
          else
            insertPath (u.below d) child m next index
        .ok { self with children := self.children.set i child }
    else if self.data.type = .root then
      -- special case for "/", add handler to root itself
      .ok ({ self with terminal := true }.setIndex m index)
    else
      .error .assertion
termination_by path.length
decreasing_by
  all_goals
    have hne : rest ≠ [] := fun h => _h (by rw [h]; rfl)
    have hlt := length_afterLevel_lt hne
    rw [nextPath_cons, List.length_cons, List.length_cons]
    omega

mutual

/-- **`RouteNode::match`.** It returns the handler index and the captured
levels. -/
def matchPath : RouteNode → HttpMethod → Bytes → List Bytes →
    Except Fault (Found × List Bytes)
  | ⟨data, terminal, methods, routeIndex, children⟩, m, path, vars =>
    if methods &&& m.bit = 0 then
      .ok (none, vars)
    else if path.head? ≠ some slash then
      .error .assertion
    else
      let next := if data.type = .root then path else nextPath path
      match data.enter (firstLevel path) vars with
      | none => .ok (none, vars)
      | some vars => do
        let (r, vars) ←
          if next ≠ [slash] then matchChildren children m next vars
          else .ok (none, vars)
        if r ≠ none then
          .ok (r, vars)
        else if terminal then
          .ok (some (routeIndex m).toNat, vars)
        else
          .ok (none, data.leave vars)

/-- The loop over the children of a node. -/
def matchChildren : List RouteNode → HttpMethod → Bytes → List Bytes →
    Except Fault (Found × List Bytes)
  | [], _, _, vars => .ok (none, vars)
  | child :: children, m, path, vars => do
    let (r, vars) ← matchPath child m path vars
    if r ≠ none then .ok (r, vars)
    else matchChildren children m path vars

end

/-! ## The functions on levels -/

/-- `insert_path` on the levels of its path. -/
def insertLevels (u : Uninit) (n : RouteNode) (m : HttpMethod) (index : ℕ) :
    List RouteNodeData → RouteNode
  | [] =>
    { n with
      terminal := true
      methods := n.methods ||| m.bit }.setIndex m index
  | d :: ds =>
    { n with
      methods := n.methods ||| m.bit
      children :=
        match n.children.findIdx? (fun child => child.data.eqData d) with
        | none =>
          n.children ++
            [if ds = [] then
              { ofData d (u.below d) true with
                methods := m.bit }.setIndex m index
            else
              insertLevels (u.below d) (ofData d (u.below d) false) m index ds]
        | some i =>
          n.children.set i
            (insertLevels (u.below d) (n.children.getD i n) m index ds) }

mutual

/-- `match` on the levels of its path. -/
def search : RouteNode → HttpMethod → List Bytes → List Bytes →
    Found × List Bytes
  | ⟨data, terminal, methods, routeIndex, children⟩, m, levels, vars =>
    if methods &&& m.bit = 0 then
      (none, vars)
    else
      let next := if data.type = .root then levels else levels.tail
      match data.enter (levels.headD []) vars with
      | none => (none, vars)
      | some vars =>
        let (r, vars) :=
          if next ≠ [] then searchChildren children m next vars
          else (none, vars)
        if r ≠ none then (r, vars)
        else if terminal then (some (routeIndex m).toNat, vars)
        else (none, data.leave vars)

/-- The loop over the children. -/
def searchChildren : List RouteNode → HttpMethod → List Bytes → List Bytes →
    Found × List Bytes
  | [], _, _, vars => (none, vars)
  | child :: children, m, levels, vars =>
    let (r, vars) := search child m levels vars
    if r ≠ none then (r, vars)
    else searchChildren children m levels vars

end

/-- **`insert_path` depends on the levels only**: with no level empty, and
the bare slash for the root alone, it returns, and what it does is read off
the levels. -/
theorem insertPath_eq (u : Uninit) (n : RouteNode) (m : HttpMethod)
    (index : ℕ) (rest : Bytes) (hlevels : [] ∉ levelsOf rest)
    (hroot : rest = [] → n.data.type = .root) :
    insertPath u n m (slash :: rest) index
      = .ok (insertLevels u n m index
          ((levelsOf rest).map RouteNodeData.ofLevel)) := by
  induction hk : rest.length using Nat.strong_induction_on
    generalizing u n rest with
  | _ k ih =>
    rw [insertPath]
    by_cases hrest : rest = []
    · subst hrest
      simp [firstLevel, hroot rfl, levelsOf, insertLevels]
    · have heq := levelsOf_eq hrest
      rw [heq, List.mem_cons, not_or] at hlevels
      have hfirst : firstLevel (slash :: rest) ≠ [] := fun h => hlevels.1 h.symm
      have hlt := length_afterLevel_lt hrest
      have hend : (levelsOf (afterLevel rest)).map RouteNodeData.ofLevel = []
          ↔ nextPath (slash :: rest) = [slash] := by
        rw [nextPath_cons, List.map_eq_nil_iff, levelsOf_eq_nil_iff]
        simp
      -- below a level, the function and its reading on levels agree
      have hbelow : ∀ (u : Uninit) (n : RouteNode),
          nextPath (slash :: rest) ≠ [slash] →
          insertPath u n m (nextPath (slash :: rest)) index
            = .ok (insertLevels u n m index
              ((levelsOf (afterLevel rest)).map RouteNodeData.ofLevel)) := by
        intro u n hne
        rw [nextPath_cons] at hne ⊢
        exact ih _ (hk ▸ hlt) u n (afterLevel rest) hlevels.2
          (fun h => absurd (by rw [h]) hne) rfl
      rw [heq, List.map_cons, insertLevels, if_neg (by simp), dif_pos hfirst]
      show (match n.children.findIdx? (fun child => child.data.eqData
        (RouteNodeData.ofLevel (rest.takeWhile (· ≠ slash)))) with
        | none => _
        | some i => _) = _
      cases hfind : n.children.findIdx? (fun child => child.data.eqData
        (RouteNodeData.ofLevel (rest.takeWhile (· ≠ slash)))) with
      | none =>
        by_cases hn : nextPath (slash :: rest) = [slash]
        · simp only [if_pos hn, if_pos (hend.mpr hn), Except.ok_bind]
          rfl
        · simp only [if_neg hn, if_neg (fun h => hn (hend.mp h)), hbelow _ _ hn,
            Except.ok_bind]
          rfl
      | some i =>
        by_cases hn : nextPath (slash :: rest) = [slash]
        · simp only [if_pos hn, hend.mpr hn, insertLevels, Except.ok_bind]
        · simp only [if_neg hn, hbelow _ _ hn, Except.ok_bind]
          rfl

/-- The first level of a path with a slash in front. -/
theorem headD_levelsOf (rest : Bytes) :
    (levelsOf rest).headD [] = firstLevel (slash :: rest) := by
  by_cases h : rest = []
  · rw [h]
    rfl
  · rw [levelsOf_eq h]
    rfl

/-- The levels after the first one. -/
theorem tail_levelsOf (rest : Bytes) :
    (levelsOf rest).tail = levelsOf (afterLevel rest) := by
  by_cases h : rest = []
  · rw [h]
    rfl
  · rw [levelsOf_eq h, List.tail_cons]

mutual

/-- **`match` depends on the levels only**, and from a path with a slash in
front it returns. -/
theorem matchPath_eq (n : RouteNode) (m : HttpMethod) (rest : Bytes)
    (vars : List Bytes) :
    matchPath n m (slash :: rest) vars
      = .ok (search n m (levelsOf rest) vars) := by
  cases n with
  | mk data terminal methods routeIndex children =>
    rw [matchPath, search, headD_levelsOf, tail_levelsOf]
    by_cases hm : methods &&& m.bit = 0
    · rw [if_pos hm, if_pos hm]
    · rw [if_neg hm, if_neg hm, if_neg (by simp)]
      have hnext : (if data.type = .root then slash :: rest
            else nextPath (slash :: rest))
          = slash :: (if data.type = .root then rest else afterLevel rest) := by
        rw [nextPath_cons]
        split_ifs <;> rfl
      have hlevels : (if data.type = .root then levelsOf rest
            else levelsOf (afterLevel rest))
          = levelsOf (if data.type = .root then rest else afterLevel rest) := by
        split_ifs <;> rfl
      simp only [hnext, hlevels]
      cases data.enter (firstLevel (slash :: rest)) vars with
      | none => rfl
      | some vars =>
        by_cases hempty : (if data.type = .root then rest
          else afterLevel rest) = []
        · simp only [hempty, levelsOf, ne_eq, not_true, if_false,
            Except.ok_bind]
          split_ifs <;> rfl
        · simp only [ne_eq, List.cons.injEq, true_and, hempty,
            levelsOf_eq_nil_iff, not_false_eq_true, if_true,
            matchChildren_eq children, Except.ok_bind]
          split_ifs <;> rfl

theorem matchChildren_eq (children : List RouteNode) (m : HttpMethod)
    (rest : Bytes) (vars : List Bytes) :
    matchChildren children m (slash :: rest) vars
      = .ok (searchChildren children m (levelsOf rest) vars) := by
  cases children with
  | nil => rfl
  | cons child children =>
    rw [matchChildren, searchChildren, matchPath_eq child, Except.ok_bind]
    dsimp only
    split_ifs
    · rfl
    · exact matchChildren_eq children m rest _

end

end RouteNode
