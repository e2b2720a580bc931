import Harmony.HttpRouter
import Harmony.Run

/-!
# The captured levels of a route

`match` collects the levels a route captures in a vector that every worker
thread has one of. `dispatch_route` clears it, has `match` fill it and calls
the handler; `get_param`, which the handler may call at any time until it
finishes, finds the place of a label in the text of the route and reads the
vector there.

A worker thread goes through dispatches, calls of `get_param` and ends of
handlers in any order (`ThreadEvent`): a coroutine may have been suspended
in between. `Observed` adds to the thread what is asked about it: the vector
as each handler's own dispatch left it, and which dispatch came last. A call
sees its own captures as long as no other dispatch has come in between, and
stays inside the vector where its label belongs to one of the captured
levels (`Observed.ownValue_of_undisturbed`).
-/

namespace HttpRouter

/-- **`HttpRouter::dispatch_route`**, up to the call of the handler: the
vector it leaves behind, and the index of the handler it calls. -/
def dispatchRoute (router : HttpRouter) (m : HttpMethod) (path : Bytes) :
    Except Fault (List Bytes × Option ℕ) := do
  let (index, vars) ← router.root.matchPath m path []
  match index with
  | none => .ok (vars, none)
  | some index =>
    if index < router.handlers.length then .ok (vars, some index)
    else .error .indexOutOfRange

/-- The loop of `get_param`: how many braces open in front of the one the
label stands behind. -/
def findParam (label : Bytes) (index : ℕ) : Bytes → Option ℕ
  | [] => none
  | c :: route =>
    if c = 123 then
      if route.take label.length = label then some index
      else findParam label (index + 1) route
    else findParam label index route

/-- **`HttpRequest::get_param`.** -/
def getParam (router : HttpRouter) (vars : List Bytes) (handlerIndex : ℕ)
    (label : Bytes) : Except Fault (Option Bytes) :=
  match router.routePaths[handlerIndex]? with
  | none => .error .indexOutOfRange
  | some route =>
    match findParam label 0 route with
    | none => .ok none
    | some index =>
      match vars[index]? with
      | none => .error .indexOutOfRange
      | some value => .ok (some value)

/-- What a dispatch has matched is a handler of the router. -/
theorem matchPath_of_dispatchRoute {router : HttpRouter} {m : HttpMethod}
    {path : Bytes} {vars : List Bytes} {index : ℕ}
    (h : router.dispatchRoute m path = .ok (vars, some index)) :
    router.root.matchPath m path [] = .ok (some index, vars)
      ∧ index < router.handlers.length := by
  unfold dispatchRoute at h
  obtain ⟨⟨found, out⟩, hmatch, h⟩ := Except.exists_of_bind_eq_ok h
  cases found with
  | none => cases h
  | some i =>
    dsimp only at h
    split_ifs at h with hlt
    cases h
    exact ⟨hmatch, hlt⟩

end HttpRouter

/-- **A worker thread**, as far as captured levels go. -/
structure Thread where
  /-- The vector of captured levels. -/
  vars : List Bytes
  /-- The `handler_index_` of the requests whose handlers have started and
  not finished. -/
  handlerIndex : ℕ → Option ℕ

/-- **What happens on a worker thread.** Requests have numbers. -/
inductive ThreadEvent where
  /-- A request is dispatched. -/
  | dispatch (id : ℕ) (m : HttpMethod) (path : Bytes)
  /-- Its handler asks for a parameter. -/
  | getParam (id : ℕ) (label : Bytes)
  /-- Its handler finishes. -/
  | finish (id : ℕ)
  deriving DecidableEq, Repr

/-- A call of `get_param`: what it returns, and what it would have returned
right after the handler's own dispatch. -/
structure ParamCall where
  now : Except Fault (Option Bytes)
  own : Except Fault (Option Bytes)

/-- **A thread under observation.** -/
structure Observed where
  thread : Thread
  /-- The vector right after a request's own dispatch. -/
  ownVars : ℕ → List Bytes
  /-- The request that was dispatched last. -/
  last : Option ℕ
  /-- The calls of `get_param` so far. -/
  calls : List ParamCall

namespace Observed

/-- Before the first request. -/
def start : Observed := ⟨⟨[], fun _ => none⟩, fun _ => [], none, []⟩

/-- **One event.** A request whose handler is not running asks for
nothing. -/
def step (router : HttpRouter) (s : Observed) :
    ThreadEvent → Except Fault Observed
  | .dispatch id m path => do
    let (vars, index) ← router.dispatchRoute m path
    .ok { s with
      thread := ⟨vars, Function.update s.thread.handlerIndex id index⟩
      ownVars := Function.update s.ownVars id vars
      last := some id }
  | .getParam id label =>
    match s.thread.handlerIndex id with
    | none => .ok s
    | some index =>
      .ok { s with
        calls := s.calls ++
          [⟨router.getParam s.thread.vars index label,
            router.getParam (s.ownVars id) index label⟩] }
  | .finish id =>
    .ok { s with
      thread := { s.thread with
        handlerIndex := Function.update s.thread.handlerIndex id none } }

/-- **The call gets its own value**: what it would have got right after its
own dispatch, and that is not past the end of the vector. -/
def OwnValue (c : ParamCall) : Prop := c.now = c.own ∧ ∃ v, c.own = .ok v

/-- **The call is undisturbed**: if the label stands behind a brace of the
route, then no other request has been dispatched since the handler's own
dispatch, and fewer braces open before it than levels were captured. -/
def Undisturbed (router : HttpRouter) (s : Observed) : ThreadEvent → Prop
  | .getParam id label =>
    ∀ index route i, s.thread.handlerIndex id = some index →
      router.routePaths[index]? = some route →
      HttpRouter.findParam label 0 route = some i →
      s.last = some id ∧ i < (s.ownVars id).length
  | _ => True

/-- What holds in every state: the vector is that of the last dispatch, and
running handlers are handlers of the router. -/
structure Inv (router : HttpRouter) (s : Observed) : Prop where
  vars : ∀ id, s.last = some id → s.thread.vars = s.ownVars id
  index : ∀ id index, s.thread.handlerIndex id = some index →
    index < router.routePaths.length
  calls : ∀ c ∈ s.calls, OwnValue c

/-- An undisturbed call gets its own value. -/
theorem ownValue_of_undisturbed_call {router : HttpRouter} {s : Observed}
    (hinv : s.Inv router) {id index : ℕ} {label : Bytes}
    (hindex : s.thread.handlerIndex id = some index)
    (hguard : s.Undisturbed router (.getParam id label)) :
    OwnValue ⟨router.getParam s.thread.vars index label,
      router.getParam (s.ownVars id) index label⟩ := by
  have hlt := hinv.index id index hindex
  have hroute := List.getElem?_eq_getElem hlt
  unfold OwnValue HttpRouter.getParam
  rw [hroute]
  dsimp only
  cases hfind : HttpRouter.findParam label 0 router.routePaths[index] with
  | none => exact ⟨rfl, none, rfl⟩
  | some i =>
    obtain ⟨hlast, hi⟩ := hguard index _ i hindex hroute hfind
    rw [hinv.vars id hlast]
    dsimp only
    rw [List.getElem?_eq_getElem hi]
    exact ⟨rfl, _, rfl⟩

/-- **One event keeps it**, if it is undisturbed. -/
theorem inv_step {router : HttpRouter}
    (hsizes : router.handlers.length = router.routePaths.length)
    (s : Observed) (e : ThreadEvent) (s' : Observed) (hinv : s.Inv router)
    (hguard : s.Undisturbed router e) (h : s.step router e = .ok s') :
    s'.Inv router := by
  cases e with
  | dispatch id m path =>
    rw [step] at h
    obtain ⟨⟨vars, index⟩, hdispatch, h⟩ := Except.exists_of_bind_eq_ok h
    cases h
    refine ⟨?_, ?_, hinv.calls⟩
    · rintro id' hid
      cases hid
      exact (Function.update_self id vars s.ownVars).symm
    · intro id' index' hid
      dsimp only at hid
      by_cases heq : id' = id
      · subst heq
        rw [Function.update_self] at hid
        subst hid
        exact hsizes ▸ (HttpRouter.matchPath_of_dispatchRoute hdispatch).2
      · rw [Function.update_of_ne heq] at hid
        exact hinv.index id' index' hid
  | getParam id label =>
    cases hindex : s.thread.handlerIndex id with
    | none =>
      rw [step, hindex] at h
      cases h
      exact hinv
    | some index =>
      rw [step, hindex] at h
      cases h
      refine ⟨hinv.vars, hinv.index, ?_⟩
      intro c hc
      rcases List.mem_append.mp hc with hold | hnew
      · exact hinv.calls c hold
      · rw [List.mem_singleton.mp hnew]
        exact ownValue_of_undisturbed_call hinv hindex hguard
  | finish id =>
    cases h
    refine ⟨hinv.vars, ?_, hinv.calls⟩
    intro id' index hid
    dsimp only at hid
    by_cases heq : id' = id
    · subst heq
      rw [Function.update_self] at hid
      cases hid
    · rw [Function.update_of_ne heq] at hid
      exact hinv.index id' index hid

/-- **Undisturbed calls get their own values.** In every run of a worker
thread whose calls of `get_param` are undisturbed, every one of them returns
what it would have returned right after its own dispatch, and reads inside
the vector. -/
theorem ownValue_of_undisturbed (u : Uninit) (calls : List RouteCall)
    (router : HttpRouter)
    (hbuilt : (HttpRouter.new u).addRoutes u calls = .ok router)
    (events : List ThreadEvent) (s : Observed)
    (hguard : Run.Throughout (step router) (Undisturbed router) start events)
    (hrun : Run.exec (step router) start events = .ok s) :
    ∀ c ∈ s.calls, OwnValue c := by
  have hstart : start.Inv router := by
    refine ⟨?_, ?_, ?_⟩
    · intro id hid
      cases hid
    · intro id index hid
      cases hid
    · intro c hc
      cases hc
  have hsizes := HttpRouter.sizes_of_addRoutes rfl hbuilt
  exact (Run.invariant (inv_step hsizes) hstart hguard hrun).calls

/-- Users by their numbers. -/
def userRoutes : List RouteCall := [⟨.get, bytes "/users/{id}", .coroFunc⟩]

/-- Memory full of zeros. -/
def zeros : Uninit := fun _ => (0, fun _ => 0)

/-- The router of `userRoutes`. -/
def userRouter : HttpRouter := HttpRouter.ofCalls zeros userRoutes

theorem addRoutes_userRoutes :
    (HttpRouter.new zeros).addRoutes zeros userRoutes = .ok userRouter := by
  refine HttpRouter.addRoutes_eq zeros userRoutes ?_ (HttpRouter.sound_new _)
  rw [userRoutes, List.forall_mem_singleton]
  decide

/-- What the dispatch of a user's page captures. -/
theorem dispatchRoute_userRouter {r : Bytes} {vars : List Bytes}
    (h : ((HttpRouter.routes userRoutes).foldl
      (fun n x => n.insertLevels zeros x.2.1 x.2.2 x.1)
      (RouteNode.root zeros)).search .get (levelsOf r) []
        = (some 0, vars)) :
    userRouter.dispatchRoute .get (slash :: r) = .ok (vars, some 0) := by
  rw [HttpRouter.dispatchRoute, RouteNode.matchPath_eq, Except.ok_bind,
    userRouter, HttpRouter.root_ofCalls, h]
  rfl

theorem dispatchRoute_user7 :
    userRouter.dispatchRoute .get (bytes "/users/7")
      = .ok ([bytes "7"], some 0) :=
  dispatchRoute_userRouter (r := bytes "users/7") (by decide +kernel)

theorem dispatchRoute_user8 :
    userRouter.dispatchRoute .get (bytes "/users/8")
      = .ok ([bytes "8"], some 0) :=
  dispatchRoute_userRouter (r := bytes "users/8") (by decide +kernel)

/-- The thread after a dispatch. -/
def dispatched (s : Observed) (id : ℕ) (vars : List Bytes)
    (index : Option ℕ) : Observed :=
  { s with
    thread := ⟨vars, Function.update s.thread.handlerIndex id index⟩
    ownVars := Function.update s.ownVars id vars
    last := some id }

theorem step_dispatch {router : HttpRouter} {m : HttpMethod} {path : Bytes}
    {vars : List Bytes} {index : Option ℕ}
    (h : router.dispatchRoute m path = .ok (vars, index)) (s : Observed)
    (id : ℕ) :
    s.step router (.dispatch id m path) = .ok (s.dispatched id vars index) := by
  rw [step, h, Except.ok_bind]
  rfl

/-- The thread after a handler asked for a parameter. -/
def asked (s : Observed) (now own : Except Fault (Option Bytes)) : Observed :=
  { s with calls := s.calls ++ [⟨now, own⟩] }

theorem step_getParam (router : HttpRouter) (s : Observed) (id : ℕ)
    {index : ℕ} (h : s.thread.handlerIndex id = some index) (label : Bytes) :
    s.step router (.getParam id label)
      = .ok (s.asked (router.getParam s.thread.vars index label)
          (router.getParam (s.ownVars id) index label)) := by
  rw [step, h]
  rfl

/-- What `get_param` returns to the handler of a user's page. -/
theorem getParam_userRouter (value : Bytes) :
    userRouter.getParam [value] 0 (bytes "id") = .ok (some value) := rfl

/-- A handler that asks before the next request comes in sees its own
user. -/
theorem user_ownValue : ∃ s, Run.exec (step userRouter) start
      [.dispatch 1 .get (bytes "/users/7"), .getParam 1 (bytes "id"),
        .dispatch 2 .get (bytes "/users/8")] = .ok s
    ∧ s.calls.length = 1 ∧ ∀ c ∈ s.calls, OwnValue c := by
  have hfirst := step_dispatch dispatchRoute_user7 start 1
  have hsecond := step_getParam userRouter
    (start.dispatched 1 [bytes "7"] (some 0)) 1 rfl (bytes "id")
  have hrun := (Run.exec_cons_of_ok hfirst _).trans
    ((Run.exec_cons_of_ok hsecond _).trans
      ((Run.exec_cons_of_ok (step_dispatch dispatchRoute_user8 _ 2) []).trans
        (Run.exec_nil _)))
  have hguard : Run.Throughout (step userRouter) (Undisturbed userRouter) start
      [.dispatch 1 .get (bytes "/users/7"), .getParam 1 (bytes "id"),
        .dispatch 2 .get (bytes "/users/8")] := by
    refine ⟨trivial, fun s hs => ?_⟩
    rw [hfirst] at hs
    cases hs
    refine ⟨?_, fun s _ => ⟨trivial, fun _ _ => trivial⟩⟩
    intro index route i hindex hroute hfind
    cases hindex
    cases hroute
    cases hfind
    exact ⟨rfl, by decide⟩
  exact ⟨_, hrun, rfl, ownValue_of_undisturbed zeros userRoutes userRouter
    addRoutes_userRoutes _ _ hguard hrun⟩

/-- **Another dispatch takes the captures away.** A handler that was
suspended while the next request came in gets that request's user. -/
theorem user_not_ownValue :
    ¬ ∀ (u : Uninit) (calls : List RouteCall) (router : HttpRouter),
      (HttpRouter.new u).addRoutes u calls = .ok router →
      ∀ (events : List ThreadEvent) (s : Observed),
        Run.exec (step router) start events = .ok s →
        ∀ c ∈ s.calls, OwnValue c := by
  intro h
  have hthird := step_getParam userRouter
    ((start.dispatched 1 [bytes "7"] (some 0)).dispatched 2 [bytes "8"]
      (some 0)) 1 rfl (bytes "id")
  have hrun := (Run.exec_cons_of_ok
      (step_dispatch dispatchRoute_user7 start 1) _).trans
    ((Run.exec_cons_of_ok (step_dispatch dispatchRoute_user8 _ 2) _).trans
      ((Run.exec_cons_of_ok hthird []).trans (Run.exec_nil _)))
  have hown := h zeros userRoutes userRouter addRoutes_userRoutes _ _ hrun _
    (List.mem_singleton.mpr rfl)
  have heq : userRouter.getParam [bytes "8"] 0 (bytes "id")
      = userRouter.getParam [bytes "7"] 0 (bytes "id") := hown.1
  rw [getParam_userRouter, getParam_userRouter] at heq
  exact absurd heq (by decide)

end Observed
