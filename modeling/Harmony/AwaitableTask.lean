import Harmony.Resumption
import Mathlib.Data.List.Nodup
import Mathlib.Data.List.Perm.Subperm

/-!
# Coroutines

A handler may be a coroutine, and so are the functions it waits for. Each call
of one makes a frame on the heap. A frame starts running at once and is
suspended where it waits: for the result of a query, whose completion handler
is the frame's handle, or for another coroutine, whose promise is told the
handle of the waiting frame (`AwaitableTask`). A coroutine that ends stays
suspended behind its end, and resumes the frame that waits for it
(`SuspendAndContinue`); that one takes the value out of the promise, and with
the awaitable the frame of the coroutine that has ended is destroyed.

The coroutines here await what they call, where they call it, and have one
query out at a time (`Coroutine`). An `AwaitableTask` starts at once, so that a
program might also keep it and await it later, drop it, or have two queries out;
such programs are left out, and so are those that have a query answered by a
callback or wait for the body of a request (`body`, `data` and `json`).

All of this goes by bare handles: resuming or destroying a frame that is not
there, or not suspended, is undefined. `CoroWorld` keeps the frames with free
places that are used again. Its operations are those of the promise types; a
frame, what it was called by and what it waits for form a chain
(`CoroWorld.Chain`), and on a chain they do what the program does in direct
style: running a coroutine (`CoroWorld.exec_spec`), handing it a result
(`CoroWorld.handleResult_spec`) and destroying it with all that it waits for
(`CoroWorld.destroy_spec`).
-/

variable {Q V A R S : Type}

/-- **The body of a coroutine** that awaits each call of another one where it is
made, and the result of a query behind sending it. -/
inductive Coroutine (Q V A R : Type) where
  /-- `co_return v`. -/
  | ret (v : V)
  /-- A call of something that is no coroutine. -/
  | act (a : A) (k : R → Coroutine Q V A R)
  /-- The query is sent with `co_await this_coro()` as its completion handler;
  then `co_await std::suspend_always{}` and `co_return keep_value{}`. -/
  | query (q : Q)
  /-- `co_await`, of the call of another coroutine. -/
  | await (child : Coroutine Q V A R) (k : V → Coroutine Q V A R)

/-- **What a coroutine means**: the program in direct style. -/
def Coroutine.tree : Coroutine Q V A R → Resumption Q V A R
  | .ret v => .ret v
  | .act a k => .act a fun r => (k r).tree
  | .query q => .ask q .ret
  | .await child k => child.tree.bind fun v => (k v).tree

/-- Where a coroutine stands. -/
inductive Point (Q V A R : Type) where
  | running
  /-- Suspended until the result of its query is there. -/
  | asked
  /-- Suspended until the coroutine it has called has ended. -/
  | awaits (child : ℕ) (k : V → Coroutine Q V A R)
  /-- Suspended behind its end. -/
  | done

/-- **A frame**, with its promise. -/
structure CoroFrame (Q V A R : Type) where
  /-- The number of the handler on whose behalf it was made. -/
  owner : ℕ
  point : Point Q V A R
  continuation : Option ℕ
  value : Option V

/-- **The frames** of all coroutines, and what they work on. -/
structure CoroWorld (Q V A R S : Type) where
  /-- The heap, with its free places. -/
  frames : List (Option (CoroFrame Q V A R))
  /-- The queries whose results have not been read, with the serial of the
  stream and the completion handler. -/
  queue : List (ℕ × ℕ × Q)
  shared : S

/-- What would be undefined, or fail an assertion. -/
inductive CoroFault where
  /-- A handle whose frame is not there. -/
  | noFrame
  /-- A frame that is not suspended where it should be. -/
  | notSuspended
  /-- A promise without a value. -/
  | noValue
  /-- Coroutines that wait for each other. -/
  | cyclic
  deriving DecidableEq, Repr

namespace CoroWorld

/-- The frame of a handle. -/
def frame (w : CoroWorld Q V A R S) (h : ℕ) : Option (CoroFrame Q V A R) :=
  (w.frames[h]?).join

/-- The place that is used next. -/
def fresh (w : CoroWorld Q V A R S) : ℕ := w.frames.findIdx (·.isNone)

/-- A frame is made. -/
def alloc (w : CoroWorld Q V A R S) (f : CoroFrame Q V A R) :
    CoroWorld Q V A R S :=
  { w with
    frames :=
      if w.fresh < w.frames.length then w.frames.set w.fresh (some f)
      else w.frames ++ [some f] }

/-- A frame is written over. -/
def put (w : CoroWorld Q V A R S) (h : ℕ) (f : CoroFrame Q V A R) :
    CoroWorld Q V A R S :=
  { w with frames := w.frames.set h (some f) }

/-- A frame is changed, if it is there. -/
def update (w : CoroWorld Q V A R S) (h : ℕ)
    (g : CoroFrame Q V A R → CoroFrame Q V A R) :
    Except CoroFault (CoroWorld Q V A R S) :=
  match w.frame h with
  | none => .error .noFrame
  | some f => .ok (w.put h (g f))

/-- The place of a frame becomes free. -/
def free (w : CoroWorld Q V A R S) (h : ℕ) : CoroWorld Q V A R S :=
  { w with frames := w.frames.set h none }

/-- `co_return v`. -/
def coReturn (w : CoroWorld Q V A R S) (h : ℕ) (v : V) :
    Except CoroFault (CoroWorld Q V A R S) :=
  w.update h fun f => { f with point := .done, value := some v }

variable (perform : A → S → R × S)

/-- **A coroutine runs** in the frame `h`, until it is suspended or has
ended. -/
def exec (owner : ℕ) : Coroutine Q V A R → ℕ → CoroWorld Q V A R S →
    Except CoroFault (CoroWorld Q V A R S)
  | .ret v, h, w => w.coReturn h v
  | .act a k, h, w =>
    exec owner (k (perform a w.shared).1) h
      { w with shared := (perform a w.shared).2 }
  | .query q, h, w =>
    { w with queue := w.queue ++ [(owner, h, q)] }.update h fun f =>
      { f with point := .asked }
  | .await child k, h, w =>
    -- the coroutine that is called starts at once
    match exec owner child w.fresh (w.alloc ⟨owner, .running, none, none⟩) with
    | .error e => .error e
    | .ok w' =>
      match w'.frame w.fresh with
      | none => .error .noFrame
      | some ⟨_, .done, _, value⟩ =>
        -- `await_ready`
        match value with
        | none => .error .noValue
        | some v => exec owner (k v) h (w'.free w.fresh)
      | some _ =>
        -- `await_suspend`
        match w'.update w.fresh fun f => { f with continuation := some h } with
        | .error e => .error e
        | .ok w' => w'.update h fun f => { f with point := .awaits w.fresh k }

/-- **A frame that waits for a coroutine is resumed**: it takes the value, and
destroys the frame of the coroutine. -/
def resumeAwaiting (owner : ℕ) (h : ℕ) (w : CoroWorld Q V A R S) :
    Except CoroFault (CoroWorld Q V A R S) :=
  match w.frame h with
  | none => .error .noFrame
  | some f =>
    match f.point with
    | .awaits child k =>
      match w.frame child with
      | none => .error .noFrame
      | some ⟨_, .done, _, some v⟩ =>
        match (w.free child).update h fun f => { f with point := .running } with
        | .error e => .error e
        | .ok w => exec perform owner (k v) h w
      | some _ => .error .noValue
    | _ => .error .notSuspended

/-- **`final_suspend`**, and what it leads to: a coroutine that has ended resumes
the one that waits for it. -/
def complete (owner : ℕ) : ℕ → ℕ → CoroWorld Q V A R S →
    Except CoroFault (CoroWorld Q V A R S)
  | fuel, h, w =>
    match w.frame h with
    | none => .error .noFrame
    | some ⟨_, .done, some c, _⟩ =>
      match fuel with
      | 0 => .error .cyclic
      | fuel + 1 =>
        match resumeAwaiting perform owner c w with
        | .error e => .error e
        | .ok w => complete owner fuel c w
    | some _ => .ok w

/-- **`handle_result`** for a stream that is alive: the result is put into the
promise and the coroutine goes on, unless it has ended. -/
def handleResult (owner : ℕ) (h : ℕ) (v : V) (w : CoroWorld Q V A R S) :
    Except CoroFault (CoroWorld Q V A R S) :=
  match w.frame h with
  | none => .error .noFrame
  | some f =>
    match f.point with
    | .done => w.update h fun f => { f with value := some v }
    | .asked =>
      -- `co_return keep_value{}`
      match w.coReturn h v with
      | .error e => .error e
      | .ok w => complete perform owner w.frames.length h w
    | _ => .error .notSuspended

/-- **A frame is destroyed**, and with the awaitable in it the frame it waits
for. -/
def destroy : ℕ → ℕ → CoroWorld Q V A R S →
    Except CoroFault (CoroWorld Q V A R S)
  | fuel, h, w =>
    match w.frame h with
    | none => .error .noFrame
    | some f =>
      match f.point with
      | .running => .error .notSuspended
      | .awaits child _ =>
        match fuel with
        | 0 => .error .cyclic
        | fuel + 1 =>
          match destroy fuel child w with
          | .error e => .error e
          | .ok w => .ok (w.free h)
      | _ => .ok (w.free h)

/-! ## The heap -/

variable {w : CoroWorld Q V A R S}

theorem frame_eq_some_iff {i : ℕ} {f : CoroFrame Q V A R} :
    w.frame i = some f ↔ w.frames[i]? = some (some f) := by
  rw [frame, Option.join_eq_some_iff]

/-- A frame that is there has a place. -/
theorem lt_of_frame {i : ℕ} {f : CoroFrame Q V A R} (h : w.frame i = some f) :
    i < w.frames.length :=
  (List.getElem?_eq_some_iff.mp (frame_eq_some_iff.mp h)).1

/-- The place that is used next is free. -/
theorem frame_fresh (w : CoroWorld Q V A R S) : w.frame w.fresh = none := by
  by_cases hlt : w.fresh < w.frames.length
  · have hnone : w.frames[w.fresh].isNone = true := List.findIdx_getElem
    rw [frame, List.getElem?_eq_getElem hlt, Option.isNone_iff_eq_none.mp hnone]
    rfl
  · rw [frame, List.getElem?_eq_none (Nat.not_lt.mp hlt)]
    rfl

/-- Making a frame changes no other. -/
theorem frame_alloc (w : CoroWorld Q V A R S) (f : CoroFrame Q V A R) (i : ℕ) :
    (w.alloc f).frame i = if i = w.fresh then some f else w.frame i := by
  have hle : w.fresh ≤ w.frames.length := List.findIdx_le_length
  unfold alloc frame
  dsimp only
  by_cases hlt : w.fresh < w.frames.length
  · rw [if_pos hlt, List.getElem?_set]
    by_cases hi : w.fresh = i
    · rw [if_pos hi, if_pos (hi ▸ hlt), if_pos hi.symm]
      rfl
    · rw [if_neg hi, if_neg (Ne.symm hi)]
  · have hlast : w.fresh = w.frames.length := by omega
    rw [if_neg hlt, hlast]
    rcases Nat.lt_trichotomy i w.frames.length with hi | hi | hi
    · rw [List.getElem?_append_left hi, if_neg (Nat.ne_of_lt hi)]
    · rw [hi, List.getElem?_concat_length, if_pos rfl]
      rfl
    · rw [List.getElem?_eq_none (by rw [List.length_append]; exact hi),
        if_neg (Nat.ne_of_gt hi), List.getElem?_eq_none (Nat.le_of_lt hi)]

theorem frame_put {h : ℕ} {f : CoroFrame Q V A R} (hf : w.frame h = some f)
    (f' : CoroFrame Q V A R) (i : ℕ) :
    (w.put h f').frame i = if i = h then some f' else w.frame i := by
  have hlt := lt_of_frame hf
  unfold put frame
  dsimp only
  rw [List.getElem?_set]
  by_cases hi : h = i
  · rw [if_pos hi, if_pos (hi ▸ hlt), if_pos hi.symm]
    rfl
  · rw [if_neg hi, if_neg (Ne.symm hi)]

theorem frame_free (w : CoroWorld Q V A R S) (h i : ℕ) :
    (w.free h).frame i = if i = h then none else w.frame i := by
  unfold free frame
  dsimp only
  rw [List.getElem?_set]
  by_cases hi : h = i
  · rw [if_pos hi, if_pos hi.symm]
    split_ifs <;> rfl
  · rw [if_neg hi, if_neg (Ne.symm hi)]

theorem update_eq {h : ℕ} {f : CoroFrame Q V A R} (hf : w.frame h = some f)
    (g : CoroFrame Q V A R → CoroFrame Q V A R) :
    w.update h g = .ok (w.put h (g f)) := by
  rw [update, hf]

/-! ## Chains of frames -/

/-- **A coroutine that waits**, with all that it waits for: its frame `h`, told
the continuation `cont`, and the frames below it are `hs`, and the last of them,
`leaf`, waits for a result. With that result the coroutine goes on as the
program `K`. -/
inductive Chain (frame : ℕ → Option (CoroFrame Q V A R)) (owner : ℕ) :
    ℕ → Option ℕ → List ℕ → ℕ → (V → Resumption Q V A R) → Prop
  | asked {h : ℕ} {cont : Option ℕ} {value : Option V}
      (hf : frame h = some ⟨owner, .asked, cont, value⟩) :
    Chain frame owner h cont [h] h .ret
  | awaits {h child : ℕ} {cont : Option ℕ} {value : Option V}
      {k : V → Coroutine Q V A R} {hs : List ℕ} {leaf : ℕ}
      {K : V → Resumption Q V A R}
      (hf : frame h = some ⟨owner, .awaits child k, cont, value⟩)
      (hchild : Chain frame owner child (some h) hs leaf K) (hnew : h ∉ hs) :
    Chain frame owner h cont (h :: hs) leaf
      fun v => (K v).bind fun u => (k u).tree

namespace Chain

variable {frame frame' : ℕ → Option (CoroFrame Q V A R)} {owner h leaf : ℕ}
  {cont : Option ℕ} {hs : List ℕ} {K : V → Resumption Q V A R}

theorem head_mem (hc : Chain frame owner h cont hs leaf K) : h ∈ hs := by
  cases hc with
  | asked => exact List.mem_singleton_self h
  | awaits => exact List.mem_cons_self

theorem nodup (hc : Chain frame owner h cont hs leaf K) : hs.Nodup := by
  induction hc with
  | asked => exact List.nodup_singleton _
  | awaits _ _ hnew ih => exact List.nodup_cons.mpr ⟨hnew, ih⟩

/-- The frames of a chain are there, and those of the handler. -/
theorem frame_of_mem (hc : Chain frame owner h cont hs leaf K) {i : ℕ}
    (hi : i ∈ hs) : ∃ f, frame i = some f ∧ f.owner = owner := by
  induction hc with
  | asked hf =>
    rw [List.mem_singleton.mp hi]
    exact ⟨_, hf, rfl⟩
  | awaits hf _ _ ih =>
    rcases List.mem_cons.mp hi with rfl | hi
    · exact ⟨_, hf, rfl⟩
    · exact ih hi

/-- The last frame waits for a result. -/
theorem frame_leaf (hc : Chain frame owner h cont hs leaf K) :
    ∃ cont' value, frame leaf = some ⟨owner, .asked, cont', value⟩ := by
  induction hc with
  | asked hf => exact ⟨_, _, hf⟩
  | awaits _ _ _ ih => exact ih

/-- Other frames do not matter to a chain. -/
theorem congr (hc : Chain frame owner h cont hs leaf K)
    (hsame : ∀ i ∈ hs, frame' i = frame i) :
    Chain frame' owner h cont hs leaf K := by
  induction hc with
  | asked hf => exact .asked ((hsame _ List.mem_cons_self).trans hf)
  | awaits hf _ hnew ih =>
    exact .awaits ((hsame _ List.mem_cons_self).trans hf)
      (ih fun i hi => hsame i (List.mem_cons_of_mem _ hi)) hnew

/-- **The first frame is told a continuation.** -/
theorem reroot (hc : Chain frame owner h cont hs leaf K) (cont' : Option ℕ)
    (htop : ∀ f, frame h = some f →
      frame' h = some { f with continuation := cont' })
    (hsame : ∀ i ∈ hs, i ≠ h → frame' i = frame i) :
    Chain frame' owner h cont' hs leaf K := by
  cases hc with
  | asked hf => exact .asked (htop _ hf)
  | awaits hf hchild hnew =>
    refine .awaits (htop _ hf) (hchild.congr fun i hi => ?_) hnew
    exact hsame i (List.mem_cons_of_mem _ hi) fun heq => hnew (heq ▸ hi)

end Chain

/-- **What a coroutine leaves** in the frame `h` when it stops: before, its
frames were `hs`. Either it has ended, and its frame alone is left, or it
waits, and its frames are some of those it had and others that were free. All
other frames are as they were. -/
inductive Ends (frame : ℕ → Option (CoroFrame Q V A R))
    (queue : List (ℕ × ℕ × Q)) (owner h : ℕ) (cont : Option ℕ) (hs : List ℕ) :
    Settled Q V A R × S → CoroWorld Q V A R S → Prop
  | done {v : V} {s : S} {w' : CoroWorld Q V A R S} (hshared : w'.shared = s)
      (hqueue : w'.queue = queue)
      (hf : w'.frame h = some ⟨owner, .done, cont, some v⟩)
      (hsame : ∀ i, i ≠ h → w'.frame i = if i ∈ hs then none else frame i) :
    Ends frame queue owner h cont hs (.done v, s) w'
  | asks {q : Q} {K : V → Resumption Q V A R} {s : S}
      {w' : CoroWorld Q V A R S} {hs' : List ℕ} {leaf : ℕ}
      (hshared : w'.shared = s) (hqueue : w'.queue = queue ++ [(owner, leaf, q)])
      (hc : Chain w'.frame owner h cont hs' leaf K)
      (hnew : ∀ i ∈ hs', i ∈ hs ∨ frame i = none)
      (hsame : ∀ i, i ∉ hs' → w'.frame i = if i ∈ hs then none else frame i) :
    Ends frame queue owner h cont hs (.asks q K, s) w'

/-- A part of what has been done is taken together with what was done
before. -/
theorem Ends.rebase {frame frame₁ : ℕ → Option (CoroFrame Q V A R)}
    {queue queue₁ : List (ℕ × ℕ × Q)} {owner h : ℕ} {cont : Option ℕ}
    {r : Settled Q V A R × S} {w' : CoroWorld Q V A R S}
    (he : Ends frame₁ queue₁ owner h cont [h] r w') (hs : List ℕ)
    (hqueue₁ : queue₁ = queue)
    (hsame₁ : ∀ i, i ≠ h → frame₁ i = if i ∈ hs then none else frame i) :
    Ends frame queue owner h cont (h :: hs) r w' := by
  have hmem : ∀ i, i ≠ h → (i ∈ h :: hs ↔ i ∈ hs) := fun i hi => by
    rw [List.mem_cons]
    exact or_iff_right hi
  cases he with
  | done hshared hqueue hf hsame =>
    refine .done hshared (hqueue.trans hqueue₁) hf fun i hi => ?_
    rw [hsame i hi, if_neg (fun hin => hi (List.mem_singleton.mp hin)), hsame₁ i hi,
      if_congr (hmem i hi) rfl rfl]
  | asks hshared hqueue hc hnew hsame =>
    refine .asks hshared (by rw [hqueue, hqueue₁]) hc (fun i hi => ?_)
      fun i hi => ?_
    · rcases hnew i hi with hin | hnone
      · exact .inl (List.mem_cons.mpr (.inl (List.mem_singleton.mp hin)))
      · by_cases hih : i = h
        · exact .inl (List.mem_cons.mpr (.inl hih))
        · rw [hsame₁ i hih] at hnone
          split_ifs at hnone with hin
          · exact .inl (List.mem_cons_of_mem _ hin)
          · exact .inr hnone
    · have hih : i ≠ h := fun heq => hi (heq ▸ hc.head_mem)
      rw [hsame i hi, if_neg (fun hin => hih (List.mem_singleton.mp hin)),
        hsame₁ i hih, if_congr (hmem i hih) rfl rfl]

/-! ## Running a coroutine -/

/-- The frame that is called is part of a chain: it waits, too. -/
theorem exec_await_of_chain {owner h : ℕ} {child : Coroutine Q V A R}
    {k : V → Coroutine Q V A R} {w' : CoroWorld Q V A R S}
    {f : CoroFrame Q V A R} {hs : List ℕ} {leaf : ℕ} {K : V → Resumption Q V A R}
    (hchild : exec perform owner child w.fresh
      (w.alloc ⟨owner, .running, none, none⟩) = .ok w')
    (hc : Chain w'.frame owner w.fresh none hs leaf K) (hf : w'.frame h = some f)
    (howner : f.owner = owner) (hnew : h ∉ hs) :
    ∃ w'', exec perform owner (.await child k) h w = .ok w''
      ∧ Chain w''.frame owner h f.continuation (h :: hs) leaf
          (fun v => (K v).bind fun u => (k u).tree)
      ∧ w''.queue = w'.queue ∧ w''.shared = w'.shared
      ∧ ∀ i, i ∉ h :: hs → w''.frame i = w'.frame i := by
  have hne : w.fresh ≠ h := fun heq => hnew (heq ▸ hc.head_mem)
  obtain ⟨fc, hfc, -⟩ := hc.frame_of_mem hc.head_mem
  -- the two frames are written
  have hset : ∀ fc', w'.frame w.fresh = some fc' →
      ((w'.put w.fresh { fc' with continuation := some h }).frame h = some f) :=
    fun fc' hfc' => by rw [frame_put hfc', if_neg (Ne.symm hne), hf]
  have hstop : exec perform owner (.await child k) h w
      = .ok ((w'.put w.fresh { fc with continuation := some h }).put h
          { f with point := .awaits w.fresh k }) := by
    rw [exec, hchild]
    dsimp only
    cases hc with
    | asked hf' =>
      rw [hfc] at hf'
      cases hf'
      rw [hfc]
      dsimp only
      rw [update_eq hfc]
      dsimp only
      rw [update_eq (hset _ hfc)]
    | awaits hf' =>
      rw [hfc] at hf'
      cases hf'
      rw [hfc]
      dsimp only
      rw [update_eq hfc]
      dsimp only
      rw [update_eq (hset _ hfc)]
  have hframe : ∀ i, ((w'.put w.fresh { fc with continuation := some h }).put h
      { f with point := .awaits w.fresh k }).frame i
        = if i = h then some { f with point := .awaits w.fresh k }
          else if i = w.fresh then some { fc with continuation := some h }
          else w'.frame i := fun i => by
    rw [frame_put (hset _ hfc), frame_put hfc]
  refine ⟨_, hstop, .awaits (by rw [hframe, if_pos rfl, ← howner])
    (hc.reroot (some h) (fun f' hf' => ?_) fun i hi hne' => ?_) hnew, rfl, rfl,
    fun i hi => ?_⟩
  · rw [hfc] at hf'
    cases hf'
    rw [hframe, if_neg hne, if_pos rfl]
  · rw [hframe, if_neg fun heq : i = h => hnew (heq ▸ hi), if_neg hne']
  · rw [List.mem_cons, not_or] at hi
    rw [hframe, if_neg hi.1,
      if_neg fun heq : i = w.fresh => hi.2 (heq ▸ hc.head_mem)]

/-- **A coroutine runs as the program in direct style does**, until it waits or
ends. -/
theorem exec_spec {owner : ℕ} (p : Coroutine Q V A R) {h : ℕ}
    {w : CoroWorld Q V A R S} {f : CoroFrame Q V A R} (hf : w.frame h = some f)
    (howner : f.owner = owner) :
    ∃ w', exec perform owner p h w = .ok w'
      ∧ Ends w.frame w.queue owner h f.continuation [h]
          (p.tree.settle perform w.shared) w' := by
  induction p generalizing h w f with
  | ret v =>
    refine ⟨_, update_eq hf _, .done rfl rfl ?_ fun i hi => ?_⟩
    · rw [frame_put hf, if_pos rfl, ← howner]
    · rw [frame_put hf, if_neg hi, if_neg fun hin => hi (List.mem_singleton.mp hin)]
  | act a k ih =>
    exact ih _ (w := { w with shared := (perform a w.shared).2 }) hf howner
  | query q =>
    have hf' : CoroWorld.frame { w with queue := w.queue ++ [(owner, h, q)] } h
        = some f := hf
    have hasked : (CoroWorld.put { w with queue := w.queue ++ [(owner, h, q)] } h
        { f with point := .asked }).frame h
          = some ⟨owner, .asked, f.continuation, f.value⟩ := by
      rw [frame_put hf', if_pos rfl, ← howner]
    refine ⟨_, update_eq hf' _, .asks rfl rfl (.asked hasked)
      (fun i hi => .inl hi) fun i hi => ?_⟩
    rw [frame_put hf', if_neg fun heq => hi (List.mem_singleton.mpr heq),
      if_neg hi]
    rfl
  | await child k ihchild ihk =>
    have hne : h ≠ w.fresh := by
      rintro rfl
      rw [w.frame_fresh] at hf
      cases hf
    have hcall : (w.alloc ⟨owner, .running, none, none⟩).frame w.fresh
        = some ⟨owner, .running, none, none⟩ := by
      rw [frame_alloc, if_pos rfl]
    have hkept : (w.alloc ⟨owner, .running, none, none⟩).frame h = some f := by
      rw [frame_alloc, if_neg hne, hf]
    obtain ⟨w', hw', hends⟩ := ihchild hcall rfl
    rw [show (w.alloc ⟨owner, .running, none, none⟩).shared = w.shared from rfl]
      at hends
    generalize hr : child.tree.settle perform w.shared = r at hends
    cases hends with
    | @done v s _ hshared hqueue hfc hsame =>
      -- it has ended at once
      have hback : ∀ i, (w'.free w.fresh).frame i = w.frame i := fun i => by
        rw [frame_free]
        by_cases hi : i = w.fresh
        · rw [if_pos hi, hi, w.frame_fresh]
        · rw [if_neg hi, hsame i hi, frame_alloc,
            if_neg fun hin => hi (List.mem_singleton.mp hin), if_neg hi]
      obtain ⟨w'', hw'', hends'⟩ := ihk v (w := w'.free w.fresh)
        ((hback h).trans hf) howner
      refine ⟨w'', ?_, ?_⟩
      · rw [exec, hw']
        dsimp only
        rw [hfc]
        exact hw''
      · rw [Coroutine.tree, Resumption.settle_bind_of_done perform hr, ← hshared]
        rw [funext hback, show (w'.free w.fresh).queue = w.queue from hqueue]
          at hends'
        exact hends'
    | @asks q K s _ hs leaf hshared hqueue hc hnew hsame =>
      have hfree : ∀ i ∈ hs, w.frame i = none := fun i hi => by
        by_cases hif : i = w.fresh
        · rw [hif, w.frame_fresh]
        · rcases hnew i hi with hin | hnone
          · exact absurd (List.mem_singleton.mp hin) hif
          · rwa [frame_alloc, if_neg hif] at hnone
      have hnotin : h ∉ hs := fun hin => by
        rw [hfree h hin] at hf
        cases hf
      have hothers : ∀ i, i ∉ hs → w'.frame i = w.frame i := fun i hi => by
        have hif : i ≠ w.fresh := fun heq => hi (heq ▸ hc.head_mem)
        rw [hsame i hi, if_neg fun hin => hif (List.mem_singleton.mp hin),
          frame_alloc, if_neg hif]
      obtain ⟨w'', hw'', hc', hqueue', hshared', hsame'⟩ :=
        exec_await_of_chain perform (k := k) hw' hc
          ((hothers h hnotin).trans hf) howner hnotin
      refine ⟨w'', hw'', ?_⟩
      rw [Coroutine.tree, Resumption.settle_bind_of_asks perform hr]
      refine .asks (hshared'.trans hshared) (hqueue'.trans hqueue) hc'
        (fun i hi => ?_) fun i hi => ?_
      · rcases List.mem_cons.mp hi with rfl | hi
        · exact .inl List.mem_cons_self
        · exact .inr (hfree i hi)
      · have hi' := hi
        rw [List.mem_cons, not_or] at hi'
        rw [hsame' i hi, hothers i hi'.2,
          if_neg fun hin => hi'.1 (List.mem_singleton.mp hin)]

/-! ## Results -/

/-- A coroutine that waits does not resume its continuation. -/
theorem complete_of_chain {owner h leaf : ℕ} {cont : Option ℕ} {hs : List ℕ}
    {K : V → Resumption Q V A R} (hc : Chain w.frame owner h cont hs leaf K)
    (fuel : ℕ) : complete perform owner fuel h w = .ok w := by
  cases hc with
  | asked hf => rw [complete, hf]
  | awaits hf => rw [complete, hf]

/-- **A frame whose coroutine has ended resumes the one that waits for it**,
which goes on with the value and destroys the frame. -/
theorem complete_of_done {owner h child : ℕ} {cont : Option ℕ}
    {value : Option V} {k : V → Coroutine Q V A R} {v : V}
    (hdone : w.frame child = some ⟨owner, .done, some h, some v⟩)
    (hf : w.frame h = some ⟨owner, .awaits child k, cont, value⟩) (n : ℕ) :
    ∃ w', Ends (fun i => if i = child then none else w.frame i) w.queue owner h
        cont [h] ((k v).tree.settle perform w.shared) w'
      ∧ complete perform owner (n + 1) child w
        = complete perform owner n h w' := by
  have hne : h ≠ child := by
    rintro rfl
    rw [hdone] at hf
    cases hf
  have hf₁ : (w.free child).frame h
      = some ⟨owner, .awaits child k, cont, value⟩ := by
    rw [frame_free, if_neg hne, hf]
  set w₁ := (w.free child).put h ⟨owner, .running, cont, value⟩ with hw₁
  have hframe : ∀ i, w₁.frame i = if i = h
      then some ⟨owner, .running, cont, value⟩
      else if i = child then none else w.frame i := fun i => by
    rw [hw₁, frame_put hf₁, frame_free]
  obtain ⟨w', hw', hends⟩ := exec_spec perform (k v) (w := w₁)
    ((hframe h).trans (if_pos rfl)) (show owner = owner from rfl)
  refine ⟨w', ?_, ?_⟩
  · have hbase := hends.rebase [] rfl fun i hi => by
      rw [if_neg List.not_mem_nil, hframe, if_neg hi]
    exact hbase
  · have hresume : resumeAwaiting perform owner h w = .ok w' := by
      rw [resumeAwaiting, hf]
      dsimp only
      rw [hdone]
      dsimp only
      rw [update_eq hf₁]
      exact hw'
    rw [complete, hdone]
    dsimp only
    rw [hresume]

/-- **A result goes up the chain** as far as coroutines end. -/
theorem complete_spec {owner h leaf : ℕ} {cont : Option ℕ} {hs : List ℕ}
    {K : V → Resumption Q V A R} (hc : Chain w.frame owner h cont hs leaf K)
    (v : V) (w₁ : CoroWorld Q V A R S)
    (hleaf : ∀ f, w.frame leaf = some f →
      w₁.frame leaf = some { f with point := .done, value := some v })
    (hsame : ∀ i, i ≠ leaf → w₁.frame i = w.frame i)
    (hqueue : w₁.queue = w.queue) (hshared : w₁.shared = w.shared) (n : ℕ) :
    ∃ w₂, Ends w.frame w.queue owner h cont hs
        ((K v).settle perform w.shared) w₂
      ∧ complete perform owner (n + (hs.length - 1)) leaf w₁
        = complete perform owner n h w₂ := by
  induction hc generalizing n with
  | asked hf =>
    refine ⟨w₁, .done hshared hqueue (hleaf _ hf) fun i hi => ?_, rfl⟩
    rw [hsame i hi, if_neg fun hin => hi (List.mem_singleton.mp hin)]
  | @awaits h child cont value k hs leaf K hf hchild hnew ih =>
    have hpos : 0 < hs.length := List.length_pos_of_mem hchild.head_mem
    have hne : h ≠ child := fun heq => hnew (heq ▸ hchild.head_mem)
    obtain ⟨w₂, hends, hcomplete⟩ := ih hleaf hsame (n + 1)
    have hlength : n + ((h :: hs).length - 1) = n + 1 + (hs.length - 1) := by
      rw [List.length_cons]
      omega
    rw [hlength, hcomplete]
    generalize hr : (K v).settle perform w.shared = r at hends
    cases hends with
    | @done u s _ hshared₂ hqueue₂ hdone hsame₂ =>
      have hf₂ : w₂.frame h = some ⟨owner, .awaits child k, cont, value⟩ := by
        rw [hsame₂ h hne, if_neg hnew, hf]
      obtain ⟨w', hends', hgo⟩ := complete_of_done perform hdone hf₂ n
      refine ⟨w', ?_, hgo⟩
      rw [Resumption.settle_bind_of_done perform hr, ← hshared₂]
      refine hends'.rebase _ hqueue₂ fun i hi => ?_
      by_cases hic : i = child
      · rw [if_pos hic, if_pos (hic ▸ hchild.head_mem)]
      · rw [if_neg hic, hsame₂ i hic]
    | @asks q K' s _ hs' leaf' hshared₂ hqueue₂ hc₂ hnew₂ hsame₂ =>
      have hnotin : h ∉ hs' := fun hin => by
        rcases hnew₂ h hin with hin | hnone
        · exact hnew hin
        · rw [hf] at hnone
          cases hnone
      have hf₂ : w₂.frame h = some ⟨owner, .awaits child k, cont, value⟩ := by
        rw [hsame₂ h hnotin, if_neg hnew, hf]
      have hc := Chain.awaits hf₂ hc₂ hnotin
      refine ⟨w₂, ?_, ?_⟩
      · rw [Resumption.settle_bind_of_asks perform hr]
        refine .asks hshared₂ hqueue₂ hc (fun i hi => ?_) fun i hi => ?_
        · rcases List.mem_cons.mp hi with rfl | hi
          · exact .inl List.mem_cons_self
          · exact (hnew₂ i hi).imp_left (List.mem_cons_of_mem _)
        · rw [List.mem_cons, not_or] at hi
          rw [hsame₂ i hi.2]
          refine if_congr ?_ rfl rfl
          rw [List.mem_cons]
          exact (or_iff_right hi.1).symm
      · rw [complete_of_chain perform hc₂, complete_of_chain perform hc]

/-- A chain has no more frames than there are places. -/
theorem Chain.length_le {owner h leaf : ℕ} {cont : Option ℕ} {hs : List ℕ}
    {K : V → Resumption Q V A R} (hc : Chain w.frame owner h cont hs leaf K) :
    hs.length ≤ w.frames.length := by
  have hsub : hs ⊆ List.range w.frames.length := fun i hi => by
    obtain ⟨f, hf, -⟩ := hc.frame_of_mem hi
    exact List.mem_range.mpr (lt_of_frame hf)
  have hle := (List.subperm_of_subset hc.nodup hsub).length_le
  rwa [List.length_range] at hle

/-- **A coroutine that is handed its result goes on as the program in direct
style does**, until it waits again or ends. -/
theorem handleResult_spec {owner h leaf : ℕ} {hs : List ℕ}
    {K : V → Resumption Q V A R} (hc : Chain w.frame owner h none hs leaf K)
    (v : V) :
    ∃ w', handleResult perform owner leaf v w = .ok w'
      ∧ Ends w.frame w.queue owner h none hs
          ((K v).settle perform w.shared) w' := by
  obtain ⟨cont', value, hleaf⟩ := hc.frame_leaf
  set w₁ := w.put leaf ⟨owner, .done, cont', some v⟩ with hw₁
  have hreturn : w.coReturn leaf v = .ok w₁ := update_eq hleaf _
  have hfuel : w₁.frames.length
      = (w.frames.length - (hs.length - 1)) + (hs.length - 1) := by
    have hle := hc.length_le
    rw [hw₁, put, List.length_set]
    omega
  obtain ⟨w', hends, hcomplete⟩ := complete_spec perform hc v w₁
    (fun f hf => by
      rw [hleaf] at hf
      cases hf
      rw [hw₁, frame_put hleaf, if_pos rfl])
    (fun i hi => by rw [hw₁, frame_put hleaf, if_neg hi]) rfl rfl
    (w.frames.length - (hs.length - 1))
  refine ⟨w', ?_, hends⟩
  rw [handleResult, hleaf]
  dsimp only
  rw [hreturn]
  dsimp only
  rw [hfuel, hcomplete]
  -- nobody waits for the first frame
  generalize (K v).settle perform w.shared = r at hends
  cases hends with
  | done _ _ hf => rw [complete, hf]
  | asks _ _ hc' => exact complete_of_chain perform hc' _

/-! ## Giving up -/

/-- **Destroying a coroutine that waits** destroys all its frames, each once,
and nothing else. -/
theorem destroy_spec {owner h leaf : ℕ} {cont : Option ℕ} {hs : List ℕ}
    {K : V → Resumption Q V A R} (hc : Chain w.frame owner h cont hs leaf K)
    (n : ℕ) :
    ∃ w', destroy (n + (hs.length - 1)) h w = .ok w' ∧ w'.queue = w.queue
      ∧ w'.shared = w.shared
      ∧ ∀ i, w'.frame i = if i ∈ hs then none else w.frame i := by
  induction hc generalizing n with
  | @asked h _ _ hf =>
    refine ⟨w.free h, ?_, rfl, rfl, fun i => ?_⟩
    · rw [destroy, hf]
    · rw [frame_free]
      exact if_congr List.mem_singleton.symm rfl rfl
  | @awaits h child cont value k hs leaf K hf hchild hnew ih =>
    have hpos : 0 < hs.length := List.length_pos_of_mem hchild.head_mem
    obtain ⟨w', hw', hqueue, hshared, hsame⟩ := ih n
    refine ⟨w'.free h, ?_, hqueue, hshared, fun i => ?_⟩
    · rw [show n + ((h :: hs).length - 1) = n + (hs.length - 1) + 1 by
        rw [List.length_cons]; omega, destroy, hf]
      dsimp only
      rw [hw']
    · rw [frame_free]
      by_cases hi : i = h
      · rw [if_pos hi, if_pos (hi ▸ List.mem_cons_self)]
      · rw [if_neg hi, hsame]
        refine if_congr ?_ rfl rfl
        rw [List.mem_cons]
        exact (or_iff_right hi).symm

/-- A coroutine that has ended has one frame left. -/
theorem destroy_of_done {owner h : ℕ} {cont : Option ℕ} {value : Option V}
    (hf : w.frame h = some ⟨owner, .done, cont, value⟩) (n : ℕ) :
    destroy n h w = .ok (w.free h) := by
  rw [destroy, hf]

end CoroWorld
