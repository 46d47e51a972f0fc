import GoAnalyze.Lib.Exclusive
import GoAnalyze.Proofs.Programs
import GoAnalyze.Spec.UploadForm

/-! The progress that the upload form shows. A run of `runUpload` goes on with the file that
it began with, while the form may be reset under it; and a run begins with the steps as the
last one left them. -/

namespace GoAnalyze

open EventLoop

/-! ## What one segment of a run does -/

/-- What a request's answer makes of the form, up to the next stop of the run. -/
def UploadOp.Effect : (op : UploadOp) → UploadReply op → UploadState → UploadState → Prop
  | .digest _, none, m, m' => m' = m.fail UploadFailure.digest.message
  | .digest _, some _, m, m' => m' = m
  | .ingest _ file, .ok record, m, m' => m' = m.ingested file record
  | .ingest _ _, .error err, m, m' => m' = m.fail (UploadFailure.request err).message
  | .uploadContent _ _, .ok _, m, m' =>
    m' = m.contentDone true ∨ m' = (m.contentDone false).finish
  | .uploadContent _ _, .error err, m, m' => m' = m.fail (UploadFailure.request err).message
  | .process _, .ok _, m, m' => m' = m.processDone.finish
  | .process _, .error err, m, m' => m' = m.fail (UploadFailure.request err).message

/-- What a click makes of the form, up to the first stop of the run. -/
def UploadState.clicked (m : UploadState) : UploadState := if m.canUpload then m.begin else m

theorem clickUpload_of_not_canUpload (defaultTenantId : String) {m : UploadState}
    (h : ¬ m.canUpload) : (clickUpload defaultTenantId).settle m = (.done (), m) := by
  have hclick : (clickUpload defaultTenantId).settle m =
      (if m.canUpload then runUpload defaultTenantId else return () : UploadTask Unit).settle m :=
    rfl
  rw [hclick, if_neg h]
  rfl

theorem stops_uploadFile (defaultTenantId : String) (form : UploadState) (file : File)
    (m : UploadState) :
    (uploadFile defaultTenantId form file).Stops UploadOp.Effect (fun m' => m' = m.begin) m := by
  obtain ⟨form, auto, rfl⟩ : ∃ form' auto, form = { form' with autoProcess := auto } :=
    ⟨form, form.autoProcess, rfl⟩
  refine ⟨rfl, fun r m => ?_⟩
  cases r with
  | none => rfl
  | some digest =>
    refine ⟨rfl, fun r m => ?_⟩
    cases r with
    | error err => rfl
    | ok record =>
      refine ⟨rfl, fun r m => ?_⟩
      cases r with
      | error err => rfl
      | ok _ =>
        cases auto with
        | false => exact Or.inr rfl
        | true =>
          refine ⟨Or.inl rfl, fun r m => ?_⟩
          cases r <;> rfl

theorem stops_clickUpload (defaultTenantId : String) (m : UploadState) :
    (clickUpload defaultTenantId).Stops UploadOp.Effect (fun m' => m' = m.clicked) m := by
  have hclick : (clickUpload defaultTenantId).Stops UploadOp.Effect (fun m' => m' = m.clicked) m =
      (if m.canUpload then runUpload defaultTenantId else return () : UploadTask Unit).Stops
        UploadOp.Effect (fun m' => m' = m.clicked) m := rfl
  rw [hclick, UploadState.clicked]
  split_ifs with h
  · cases hfile : m.file with
    | none => simp [UploadState.canUpload, hfile] at h
    | some file =>
      obtain ⟨m, rfl⟩ : ∃ m', m = { m' with file := some file } := ⟨m, by rw [← hfile]⟩
      exact stops_uploadFile defaultTenantId _ file _
  · rfl

/-! ## What holds while a run waits -/

/-- Picking a file meanwhile takes the first step back to pending; once the record is
ingested, that step is done only where no file was picked since. -/
def UploadOp.Waits : UploadOp → UploadState → Prop
  | .digest _, m | .ingest _ _, m => m.busy ∧ m.steps.ingest ≠ .done
  | .uploadContent _ file, m =>
    m.busy ∧ (m.steps.ingest = .done → m.record.isSome ∧ m.recordFile = some file)
  | .process _, m => m.busy

theorem busy_of_waits {op : UploadOp} {m : UploadState} (h : op.Waits m) : m.busy := by
  cases op with
  | process _ => exact h
  | digest _ | ingest _ _ | uploadContent _ _ => exact h.1

theorem outline_uploadFile (defaultTenantId : String) (form : UploadState) (file : File)
    (m : UploadState) :
    (uploadFile defaultTenantId form file).Outline UploadOp.Waits m := by
  obtain ⟨form, auto, rfl⟩ : ∃ form' auto, form = { form' with autoProcess := auto } :=
    ⟨form, form.autoProcess, rfl⟩
  -- the first step is active at the start, and a file that is picked takes it to pending
  refine ⟨⟨rfl, StepStatus.noConfusion⟩, fun r m hm => ?_⟩
  cases r with
  | none => trivial
  | some digest =>
    refine ⟨hm, fun r m hm => ?_⟩
    cases r with
    | error err => trivial
    | ok record =>
      refine ⟨⟨hm.1, fun _ => ⟨rfl, rfl⟩⟩, fun r m hm => ?_⟩
      have hbusy := busy_of_waits hm
      cases r with
      | error err => trivial
      | ok _ =>
        cases auto with
        | false => trivial
        | true =>
          refine ⟨hbusy, fun r m _ => ?_⟩
          cases r <;> trivial

theorem outline_clickUpload (defaultTenantId : String) (m : UploadState) :
    (clickUpload defaultTenantId).Outline UploadOp.Waits m := by
  have hclick : (clickUpload defaultTenantId).Outline UploadOp.Waits m =
      (if m.canUpload then runUpload defaultTenantId else return () : UploadTask Unit).Outline
        UploadOp.Waits m := rfl
  rw [hclick]
  split_ifs with h
  · cases hfile : m.file with
    | none => simp [UploadState.canUpload, hfile] at h
    | some file =>
      obtain ⟨m, rfl⟩ : ∃ m', m = { m' with file := some file } := ⟨m, by rw [← hfile]⟩
      exact outline_uploadFile defaultTenantId _ file _
  · trivial

theorem waits_of_event {op : UploadOp} {m m' : UploadState} {e : UploadEvent}
    (he : m.event e = some m') (h : op.Waits m) : op.Waits m' := by
  have hbusy := busy_of_waits h
  cases e with
  | pick file =>
    cases file with
    | none => cases he; exact h
    | some file =>
      cases he
      cases op with
      | process _ => exact hbusy
      | digest _ | ingest _ _ => exact ⟨hbusy, StepStatus.noConfusion⟩
      | uploadContent _ _ => exact ⟨hbusy, StepStatus.noConfusion⟩
  | remove => simp [UploadState.event, UploadState.canRemove, hbusy] at he
  | setTenantId _ | setCaseId _ | setClassification _ | setDescription _ | setAutoProcess _ =>
    cases he
    cases op <;> exact h

/-! ## Consistent progress -/

/-- A step is not pending only if the steps before it are done, and the record that is
shown as uploaded was created for the file that is selected. -/
structure Consistent (m : UploadState) : Prop where
  content : m.steps.content ≠ .pending → m.steps.ingest = .done
  process : m.steps.process ≠ .pending → m.steps.ingest = .done ∧ m.steps.content = .done
  uploaded : m.uploaded.isSome → ∃ file, m.file = some file ∧ m.recordFile = some file

@[simp] theorem fail_eq_pending_iff {status : StepStatus} :
    status.fail = .pending ↔ status = .pending := by cases status <;> decide

@[simp] theorem fail_eq_done_iff {status : StepStatus} :
    status.fail = .done ↔ status = .done := by cases status <;> decide

section Consistent

variable {m : UploadState}

theorem consistent_reset_steps (h : m.steps = .initial) : Consistent m := by
  refine ⟨fun hcontent => ?_, fun hprocess => ?_, fun huploaded => ?_⟩
  · exact absurd (congrArg StepState.content h) hcontent
  · exact absurd (congrArg StepState.process h) hprocess
  · simp [UploadState.uploaded, h, StepState.initial] at huploaded

/-- A run that begins needs the steps after the first one to be pending. -/
theorem consistent_begin (h : Consistent m) :
    Consistent m.begin ↔ m.steps.content = .pending := by
  constructor
  · intro hbegin
    by_contra hcontent
    exact StepStatus.noConfusion (hbegin.content hcontent)
  · intro hcontent
    have hprocess : m.steps.process = .pending := by
      by_contra hprocess
      rw [(h.process hprocess).2] at hcontent
      cases hcontent
    exact ⟨fun hne => absurd hcontent hne, fun hne => absurd hprocess hne, fun huploaded => by
      simp [UploadState.uploaded, UploadState.begin, hcontent] at huploaded⟩

theorem consistent_fail (h : Consistent m) (message : String) : Consistent (m.fail message) := by
  refine ⟨fun hcontent => ?_, fun hprocess => ?_, fun huploaded => h.uploaded ?_⟩
  · exact fail_eq_done_iff.mpr (h.content (mt fail_eq_pending_iff.mpr hcontent))
  · obtain ⟨hingest, hcontent⟩ := h.process (mt fail_eq_pending_iff.mpr hprocess)
    exact ⟨fail_eq_done_iff.mpr hingest, fail_eq_done_iff.mpr hcontent⟩
  · simpa only [UploadState.uploaded, UploadState.fail, fail_eq_done_iff] using huploaded

theorem consistent_ingested (h : Consistent m) (hingest : m.steps.ingest ≠ .done) (file : File)
    (record : DocumentRecord) : Consistent (m.ingested file record) := by
  refine ⟨fun _ => rfl, fun hprocess => absurd (h.process hprocess).1 hingest, fun huploaded => ?_⟩
  simp [UploadState.uploaded, UploadState.ingested] at huploaded

theorem consistent_contentDone {file : File} (autoProcess : Bool)
    (hwaits : m.steps.ingest = .done → m.record.isSome ∧ m.recordFile = some file) :
    Consistent (m.contentDone autoProcess) ↔ m.steps.ingest = .done ∧ m.file = some file := by
  have huploaded : (m.contentDone autoProcess).uploaded = m.record := if_pos rfl
  constructor
  · intro h
    have hingest : m.steps.ingest = .done := h.content StepStatus.noConfusion
    obtain ⟨hrecord, hfile⟩ := hwaits hingest
    obtain ⟨file', hfile', hrecordFile⟩ := h.uploaded (by rw [huploaded]; exact hrecord)
    exact ⟨hingest, hfile'.trans (hrecordFile.symm.trans hfile)⟩
  · rintro ⟨hingest, hfile⟩
    exact ⟨fun _ => hingest, fun _ => ⟨hingest, rfl⟩, fun _ => ⟨file, hfile, (hwaits hingest).2⟩⟩

theorem consistent_processDone (h : Consistent m) :
    Consistent m.processDone ↔ m.steps.content = .done := by
  constructor
  · exact fun hdone => (hdone.process StepStatus.noConfusion).2
  · intro hcontent
    have hingest := h.content (by rw [hcontent]; exact StepStatus.noConfusion)
    exact ⟨fun _ => hingest, fun _ => ⟨hingest, hcontent⟩, h.uploaded⟩

theorem consistent_finish : Consistent m.finish ↔ Consistent m :=
  ⟨fun h => ⟨h.content, h.process, h.uploaded⟩, fun h => ⟨h.content, h.process, h.uploaded⟩⟩

theorem consistent_event {m' : UploadState} {e : UploadEvent} (h : Consistent m)
    (he : m.event e = some m') : Consistent m' := by
  cases e with
  | pick file =>
    cases file with
    | none => cases he; exact h
    | some file => cases he; exact consistent_reset_steps rfl
  | remove =>
    rw [UploadState.event] at he
    split_ifs at he
    cases he
    exact consistent_reset_steps rfl
  | setTenantId _ | setCaseId _ | setClassification _ | setDescription _ | setAutoProcess _ =>
    cases he
    exact ⟨h.content, h.process, h.uploaded⟩

end Consistent

section Loop

variable {ι : Type} [DecidableEq ι] {defaultTenantId : String} {m₀ : UploadState}
  {as : List (Label ι UploadAnswer UploadEvent)} {l l' : UploadLoop ι}

/-- At most one run waits. -/
theorem excluding_uploadForm
    (h : Runs.Run (uploadForm ι defaultTenantId).Step (Loop.init m₀) as l) :
    Excluding UploadOp.Waits l := by
  have hlock : ∀ (op : UploadOp) (m : UploadState), op.Waits m → m.busy :=
    fun op m => busy_of_waits
  refine excluding_of_run hlock (fun i m _ => outline_clickUpload defaultTenantId m)
    (fun i m hbusy => ⟨(), ?_⟩) ?_ (fun e m m' he op => waits_of_event he) h
  · exact clickUpload_of_not_canUpload defaultTenantId (by simp [UploadState.canUpload, hbusy])
  · intro i op c m r m' hm hanswer
    obtain ⟨reply, -, heq⟩ := Option.map_eq_some_iff.mp hanswer
    cases heq
    exact hm

/-- The step neither begins a run over what an earlier run has left, nor goes on with a
run after the form was reset under it. -/
def OnItsForm (l : UploadLoop ι) : Label ι UploadAnswer UploadEvent → Prop
  | .call _ => l.memory.canUpload → l.memory.steps.content = .pending
  | .answer i (.uploadContent (.ok _)) => ∀ documentId file,
    l.pending i = some (.uploadContent documentId file) →
      l.memory.steps.ingest = .done ∧ l.memory.file = some file
  | .answer _ (.process (.ok _)) => l.memory.steps.content = .done
  | _ => True

theorem consistent_iff_onItsForm
    (h : Runs.Run (uploadForm ι defaultTenantId).Step (Loop.init m₀) as l)
    (hl : Consistent l.memory) {a : Label ι UploadAnswer UploadEvent}
    (hstep : (uploadForm ι defaultTenantId).Step l a l') :
    Consistent l'.memory ↔ OnItsForm l a := by
  cases effect_of_step (fun _ m => stops_clickUpload defaultTenantId m) h hstep with
  | call _ hclicked _ =>
    rw [hclicked, UploadState.clicked, OnItsForm]
    split_ifs with hcan
    · rw [consistent_begin hl]
      exact (imp_iff_right hcan).symm
    · exact iff_of_true hl fun hcan' => absurd hcan' hcan
  | event he => exact iff_of_true (consistent_event hl he) trivial
  | @answer i c op r m _ hpending hanswer heffect _ =>
    have hwaits := (excluding_uploadForm h).holds i op hpending
    obtain ⟨reply, hreply, heq⟩ := Option.map_eq_some_iff.mp hanswer
    cases heq
    cases op with
    | digest file =>
      cases c <;> cases hreply
      refine iff_of_true ?_ trivial
      cases r with
      | none => exact heffect ▸ consistent_fail hl _
      | some digest => exact heffect ▸ hl
    | ingest payload file =>
      cases c <;> cases hreply
      refine iff_of_true ?_ trivial
      cases r with
      | error err => exact heffect ▸ consistent_fail hl _
      | ok record => exact heffect ▸ consistent_ingested hl hwaits.2 file record
    | uploadContent documentId file =>
      cases c <;> cases hreply
      cases r with
      | error err => exact iff_of_true (heffect ▸ consistent_fail hl _) trivial
      | ok result =>
        have honItsForm : OnItsForm l (.answer i (.uploadContent (.ok result))) ↔
            l.memory.steps.ingest = .done ∧ l.memory.file = some file := by
          refine ⟨fun h => h documentId file hpending, fun h documentId' file' hpending' => ?_⟩
          cases hpending.symm.trans hpending'
          exact h
        rw [honItsForm]
        rcases heffect with heffect | heffect
        · rw [heffect, consistent_contentDone true hwaits.2]
        · rw [heffect, consistent_finish, consistent_contentDone false hwaits.2]
    | process documentId =>
      cases c <;> cases hreply
      cases r with
      | error err => exact iff_of_true (heffect ▸ consistent_fail hl _) trivial
      | ok result =>
        rw [heffect, consistent_finish]
        exact consistent_processDone hl

/-- A run of the page from its start shows consistent progress in every state exactly if
every step of it is undisturbed. -/
theorem upload_progress_consistent (ι : Type) [DecidableEq ι] (defaultTenantId : String)
    (cache : DocumentCache) (as : List (Label ι UploadAnswer UploadEvent)) (l : UploadLoop ι) :
    Runs.Run.Every (uploadForm ι defaultTenantId).Step OnItsForm
        (Loop.init (UploadState.initial defaultTenantId cache)) as l ↔
      Runs.Run.Every (uploadForm ι defaultTenantId).Step (fun l _ => Consistent l.memory)
        (Loop.init (UploadState.initial defaultTenantId cache)) as l ∧ Consistent l.memory := by
  refine Runs.Run.every_iff (I := fun l => ∃ as, Runs.Run (uploadForm ι defaultTenantId).Step
    (Loop.init (UploadState.initial defaultTenantId cache)) as l) ⟨[], .nil⟩
    (consistent_reset_steps rfl) ?_ ?_
  · rintro l a l' ⟨as, hrun⟩ hstep
    exact ⟨_, hrun.snoc hstep⟩
  · rintro l a l' ⟨as, hrun⟩ hl hstep
    exact consistent_iff_onItsForm hrun hl hstep

end Loop

/-! ## Two runs of the page -/

def planFile : File := ⟨"plan.pdf", "application/pdf", [1, 2, 3]⟩

def memoFile : File := ⟨"memo.pdf", "application/pdf", [4, 5, 6]⟩

/-- What the API answers to the ingest of `planFile`. -/
def planRecord : DocumentRecord where
  tenantId := "env"
  caseId := none
  filename := "plan.pdf"
  contentType := "application/pdf"
  classification := .internal
  sha256 := String.ofList (List.replicate 64 '0')
  sha256_length := by decide
  objectUri := "pending://env/0/plan.pdf"
  metadata := []
  id := 7
  version := 1
  lineageId := 8
  createdAt := exampleTime

/-- Another file is picked while the first one is ingested. -/
def pickedDuringRun : List (Label ℕ UploadAnswer UploadEvent) :=
  [.event (.pick (some planFile)), .call 0, .answer 0 (.digest (some [])),
    .event (.pick (some memoFile)), .answer 0 (.ingest (.ok planRecord)),
    .answer 0 (.uploadContent (.ok .undefined))]

/-- The button is clicked again after the processing has failed. -/
def retried : List (Label ℕ UploadAnswer UploadEvent) :=
  [.event (.pick (some planFile)), .call 0, .answer 0 (.digest (some [])),
    .answer 0 (.ingest (.ok planRecord)), .answer 0 (.uploadContent (.ok .undefined)),
    .answer 0 (.process (.error .syntaxError)), .call 1]

/-- The record of the first file is shown as uploaded under the second one; and a retry
shows a first step that is active before a second one that is done. -/
theorem upload_progress_inconsistent :
    (∃ l : UploadLoop ℕ, Runs.Run (uploadForm ℕ "env").Step
        (Loop.init (UploadState.initial "env" fun _ => none)) pickedDuringRun l ∧
      l.memory.uploaded = some planRecord ∧ l.memory.file = some memoFile ∧
      ¬ Consistent l.memory) ∧
    ∃ l : UploadLoop ℕ, Runs.Run (uploadForm ℕ "env").Step
        (Loop.init (UploadState.initial "env" fun _ => none)) retried l ∧
      l.memory.steps = ⟨.active, .done, .error⟩ ∧ ¬ Consistent l.memory := by
  constructor
  · refine ⟨_, Runs.run_of_exec rfl, rfl, rfl, fun h => ?_⟩
    obtain ⟨file, hfile, hrecordFile⟩ := h.uploaded rfl
    have hfiles : some memoFile = some planFile := hfile.trans hrecordFile.symm
    exact absurd (congrArg (·.map (·.name)) hfiles) (by decide)
  · refine ⟨_, Runs.run_of_exec rfl, rfl, fun h => ?_⟩
    exact StepStatus.noConfusion (h.content StepStatus.noConfusion)

end GoAnalyze
