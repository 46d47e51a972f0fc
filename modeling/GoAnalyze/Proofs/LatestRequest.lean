import GoAnalyze.Spec.DataHooks

/-! Overlapping calls of a data hook. A call writes when it is answered, whichever calls were
made since, so what the hook shows in the end depends on the order of the answers. -/

namespace GoAnalyze

open EventLoop

variable {α : Type}

/-! ## Outcomes -/

def errorOf : Except RequestError α → Option RequestError
  | .ok _ => none
  | .error err => some err

def lastData (outcomes : List (Except RequestError α)) : Option α :=
  (outcomes.filterMap Except.toOption).getLast?

def lastError (outcomes : List (Except RequestError α)) : Option RequestError :=
  (outcomes.filterMap errorOf).getLast?

theorem lastData_concat (outcomes : List (Except RequestError α))
    (outcome : Except RequestError α) :
    lastData (outcomes ++ [outcome]) = (outcome.toOption <|> lastData outcomes) := by
  cases outcome <;> simp [lastData, Except.toOption]

theorem lastError_concat (outcomes : List (Except RequestError α))
    (outcome : Except RequestError α) :
    lastError (outcomes ++ [outcome]) = (errorOf outcome <|> lastError outcomes) := by
  cases outcome <;> simp [lastError, errorOf]

theorem lastError_eq_none_iff {outcomes : List (Except RequestError α)} :
    lastError outcomes = none ↔ ∀ outcome ∈ outcomes, outcome.toBool := by
  rw [lastError, List.getLast?_eq_none_iff, List.filterMap_eq_nil_iff]
  refine forall₂_congr fun outcome _ => ?_
  cases outcome <;> simp [errorOf, Except.toBool]

namespace AsyncState

/-! ## Calls one after the other -/

/-- What a hook shows where each call is answered before the next one is made. -/
def inOrder (outcomes : List (Except RequestError α)) : AsyncState α :=
  outcomes.foldl (fun s outcome => s.start.settle outcome) initial

@[simp] theorem inOrder_concat (outcomes : List (Except RequestError α))
    (outcome : Except RequestError α) :
    inOrder (outcomes ++ [outcome]) = (inOrder outcomes).start.settle outcome := by
  rw [inOrder, List.foldl_concat, inOrder]

theorem data_inOrder (outcomes : List (Except RequestError α)) :
    (inOrder outcomes).data = lastData outcomes := by
  induction outcomes using List.reverseRecOn with
  | nil => rfl
  | append_singleton outcomes outcome ih =>
    rw [inOrder_concat, lastData_concat, ← ih]
    cases outcome <;> rfl

/-! ## Calls and answers in any order -/

section After

variable {ι : Type} (response : ι → Except RequestError α)

def after (s : AsyncState α) : Label ι Unit Empty → AsyncState α
  | .call _ => s.start
  | .answer i _ => s.settle (response i)

def afterAll (as : List (Label ι Unit Empty)) : AsyncState α := as.foldl (after response) initial

@[simp] theorem afterAll_concat (as : List (Label ι Unit Empty)) (a : Label ι Unit Empty) :
    afterAll response (as ++ [a]) = after response (afterAll response as) a := by
  rw [afterAll, List.foldl_concat, afterAll]

theorem data_afterAll (as : List (Label ι Unit Empty)) :
    (afterAll response as).data = lastData ((arrived as).map response) := by
  induction as using List.reverseRecOn with
  | nil => rfl
  | append_singleton as a ih =>
    rw [afterAll_concat]
    cases a with
    | call i => rw [arrived_concat_call, ← ih]; rfl
    | answer i c =>
      rw [arrived_concat_answer, List.map_append, List.map_singleton, lastData_concat, ← ih]
      cases h : response i <;> simp [after, settle, h, Except.toOption]
    | event e => exact e.elim

theorem error_afterAll (as : List (Label ι Unit Empty)) :
    (afterAll response as).error = lastError ((arrivedSince as).map response) := by
  induction as using List.reverseRecOn with
  | nil => rfl
  | append_singleton as a ih =>
    rw [afterAll_concat]
    cases a with
    | call i => rw [arrivedSince_concat_call]; rfl
    | answer i c =>
      rw [arrivedSince_concat_answer, List.map_append, List.map_singleton, lastError_concat, ← ih]
      cases h : response i <;> simp [after, settle, h, errorOf]
    | event e => exact e.elim

end After

end AsyncState

/-! ## Runs of a hook -/

section Runs

open AsyncState

variable {ι : Type} [DecidableEq ι] {hook : DataHook} {calls : ι → hook.Request}
  {response : ι → Except RequestError hook.Data} {cache : DocumentCache}
  {as : List (Label ι Unit Empty)} {l : HookLoop ι hook}

theorem stops_call (request : hook.Request) (m : HookMemory hook.Data) :
    (hook.call request).Stops (fun _ r m m' => m'.state = m.state.settle r)
      (fun m' => m'.state = m.state.start) m := by
  have hstops : ∀ {Request α : Type} (request : Request)
      (keep : α → DocumentCache → DocumentCache) (m : HookMemory α),
      (runRequest request keep).Stops (fun _ r m m' => m'.state = m.state.settle r)
        (fun m' => m'.state = m.state.start) m := by
    intro Request α request keep m
    refine ⟨rfl, fun r m' => ?_⟩
    cases r <;> rfl
  cases hook <;> exact hstops _ _ m

theorem state_of_run
    (h : Runs.Run (hookSystem hook calls response).Step (Loop.init ⟨initial, cache⟩) as l) :
    l.memory.state = afterAll response as := by
  induction h with
  | nil => rfl
  | snoc hrun hstep ih =>
    rw [afterAll_concat, ← ih]
    cases effect_of_step (fun i m => stops_call (calls i) m) hrun hstep with
    | call _ hbegun _ => exact hbegun
    | answer _ hanswer hsettled _ =>
      cases hanswer
      exact hsettled
    | @event e => exact e.elim

theorem exists_last_answer
    (h : Runs.Run (hookSystem hook calls response).Step (Loop.init ⟨initial, cache⟩) as l)
    (hsettled : ∀ i, l.pending i = none) :
    as = [] ∨ ∃ bs j, as = bs ++ [.answer j ()] := by
  rcases as.eq_nil_or_concat' with rfl | ⟨bs, a, rfl⟩
  · exact Or.inl rfl
  · cases a with
    | answer j c => exact Or.inr ⟨bs, j, rfl⟩
    | event e => exact e.elim
    | call i =>
      obtain ⟨m, hpending⟩ := pending_of_last_call h
      rw [hsettled i] at hpending
      cases hook <;> cases hpending

/-- What `outcome` of the last call shows for is still shown: since that call no answer has
failed, or, where the call itself fails, the answer that comes last fails the same way. -/
def Outlasts (response : ι → Except RequestError α) (as : List (Label ι Unit Empty)) :
    Except RequestError α → Prop
  | .ok _ => ∀ j ∈ arrivedSince as, (response j).toBool
  | .error err => ∃ j ∈ (arrived as).getLast?, response j = .error err

/-- The success that comes last brings the data of the one that was called last, and what
the last call comes to is not written over. -/
def NotOvertaken (response : ι → Except RequestError α) (as : List (Label ι Unit Empty)) : Prop :=
  lastData ((arrived as).map response) = lastData ((issued as).map response) ∧
    ∀ n ∈ (issued as).getLast?, Outlasts response as (response n)

omit [DecidableEq ι] in
theorem outlasts_iff (response : ι → Except RequestError α) (bs : List (Label ι Unit Empty))
    (j : ι) (s : AsyncState α) (outcome : Except RequestError α) :
    Outlasts response (bs ++ [.answer j ()]) outcome ↔
      (afterAll response (bs ++ [.answer j ()])).status = (s.start.settle outcome).status ∧
      (afterAll response (bs ++ [.answer j ()])).error = (s.start.settle outcome).error := by
  cases outcome with
  | ok result =>
    have herror : (s.start.settle (.ok result)).error = none := rfl
    rw [herror, error_afterAll, lastError_eq_none_iff, List.forall_mem_map]
    refine ⟨fun hok => ⟨?_, hok⟩, And.right⟩
    rw [afterAll_concat]
    cases hj : response j with
    | ok result' => simp [after, settle, hj]
    | error err => exact absurd (hok j (by simp)) (by simp [hj, Except.toBool])
  | error err =>
    rw [Outlasts, afterAll_concat, arrived_concat_answer, List.getLast?_concat]
    cases hj : response j <;> simp [after, settle, start, hj]

/-- Once all calls have settled, the hook shows what it shows where they settle in order,
exactly if the last call was not overtaken. -/
theorem latest_request_wins_iff
    (h : Runs.Run (hookSystem hook calls response).Step (Loop.init ⟨initial, cache⟩) as l)
    (hsettled : ∀ i, l.pending i = none) :
    l.memory.state = inOrder ((issued as).map response) ↔ NotOvertaken response as := by
  rw [state_of_run h]
  rcases exists_last_answer h hsettled with rfl | ⟨bs, j, rfl⟩
  · exact iff_of_true rfl ⟨rfl, by simp [issued]⟩
  · have hj : j ∈ issued (bs ++ [.answer j ()]) := (mem_issued_iff h).2 j (by simp)
    rcases (issued (bs ++ [.answer j ()])).eq_nil_or_concat' with hnil | ⟨ns, n, hissued⟩
    · rw [hnil] at hj
      cases hj
    · have hdata : (afterAll response (bs ++ [.answer j ()])).data =
            (inOrder ((ns ++ [n]).map response)).data ↔
          lastData ((arrived (bs ++ [.answer j ()])).map response) =
            lastData ((ns ++ [n]).map response) := by
        rw [data_afterAll, data_inOrder]
      rw [AsyncState.ext_iff, and_left_comm, NotOvertaken, hissued, hdata, List.getLast?_concat]
      refine and_congr_right fun _ => ?_
      simp only [Option.mem_some_iff, forall_eq', List.map_append, List.map_singleton,
        inOrder_concat]
      exact (outlasts_iff response bs j _ _).symm

/-! ## Two pages -/

def firstPage : AuditEventListResponse := ⟨45, 1, 20, 3, []⟩

def secondPage : AuditEventListResponse := ⟨45, 2, 20, 3, []⟩

/-- The second call, `true`, asks for the second page. -/
def pageCalls (second : Bool) : ℤ × ℤ := (if second then 2 else 1, 20)

def pageResponse (second : Bool) : Except RequestError AuditEventListResponse :=
  .ok (if second then secondPage else firstPage)

/-- The audit log turns to its second page before the first one is answered. -/
def turnPage (first second : Bool) : List (Label Bool Unit Empty) :=
  [.call false, .call true, .answer first (), .answer second ()]

theorem latest_request_wins_in_order :
    ∃ l : HookLoop Bool .useAudit, Runs.Run (hookSystem .useAudit pageCalls pageResponse).Step
        (Loop.init ⟨initial, fun _ => none⟩) (turnPage false true) l ∧
      (∀ i, l.pending i = none) ∧ NotOvertaken pageResponse (turnPage false true) ∧
      l.memory.state = inOrder ((issued (turnPage false true)).map pageResponse) := by
  have htaken : NotOvertaken pageResponse (turnPage false true) := by
    refine ⟨rfl, fun n hn => ?_⟩
    cases hn
    exact fun j _ => rfl
  refine ⟨_, Runs.run_of_exec rfl, fun i => ?_, htaken, ?_⟩
  · cases i <;> rfl
  · refine (latest_request_wins_iff (Runs.run_of_exec rfl) fun i => ?_).mpr htaken
    cases i <;> rfl

/-- The first page comes last, and is shown although the second one was asked for since. -/
theorem first_page_shown_last :
    ∃ l : HookLoop Bool .useAudit, Runs.Run (hookSystem .useAudit pageCalls pageResponse).Step
        (Loop.init ⟨initial, fun _ => none⟩) (turnPage true false) l ∧
      (∀ i, l.pending i = none) ∧ l.memory.state = ⟨.success, some firstPage, none⟩ ∧
      inOrder ((issued (turnPage true false)).map pageResponse) =
        ⟨.success, some secondPage, none⟩ ∧
      l.memory.state ≠ inOrder ((issued (turnPage true false)).map pageResponse) := by
  have hpages : (⟨.success, some firstPage, none⟩ : AsyncState AuditEventListResponse) ≠
      ⟨.success, some secondPage, none⟩ := by simp [firstPage, secondPage]
  refine ⟨_, Runs.run_of_exec rfl, fun i => ?_, rfl, rfl, hpages⟩
  cases i <;> rfl

end Runs

end GoAnalyze
