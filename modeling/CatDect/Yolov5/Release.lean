import CatDect.Yolov5.Model

/-!
# What the program gives back

`release_yolov5_model` relies on the context handle and the numbers of tensors, which
`init_yolov5_model` stores only at its very end, and it destroys the context before the
memories that belong to it.  So a failed initialisation leaks whatever was opened, and the
memories of a successful one are never destroyed in time.
-/

namespace CatDect.Yolov5

open CatDect.Support HandleCall

/-! ## One call of `release_yolov5_model` -/

def memCalls (c : ℕ) (mems : List (Option ℕ)) : List (HandleCall ℕ ℕ) :=
  mems.flatMap fun mem =>
    match mem with
    | some m => [destroy c m, free m]
    | none => []

theorem memCalls_of_none {c : ℕ} {mems : List (Option ℕ)} (h : ∀ mem ∈ mems, mem = none) :
    memCalls c mems = [] := by
  apply List.flatMap_eq_nil_iff.mpr
  intro mem hmem
  rw [h mem hmem]

theorem mem_memCalls {c : ℕ} {mems : List (Option ℕ)} {call : HandleCall ℕ ℕ}
    (h : call ∈ memCalls c mems) : ∃ m, call = destroy c m ∨ call = free m := by
  obtain ⟨mem, -, hcall⟩ := List.mem_flatMap.mp h
  cases mem with
  | none => exact absurd hcall List.not_mem_nil
  | some m => exact ⟨m, List.mem_pair.mp hcall⟩

theorem destroy_mem_memCalls {c c' m : ℕ} {mems : List (Option ℕ)}
    (h : destroy c' m ∈ memCalls c mems) : c' = c := by
  obtain ⟨m', heq | heq⟩ := mem_memCalls h
  · injection heq
  · exact absurd heq (by simp)

theorem create_not_mem_memCalls {c c' m : ℕ} {mems : List (Option ℕ)} :
    create c' m ∉ memCalls c mems := by
  intro h
  obtain ⟨m', heq | heq⟩ := mem_memCalls h
  · exact absurd heq (by simp)
  · exact absurd heq (by simp)

theorem releaseMems_eq (mems : List (Option ℕ)) {n : ℕ} (hn : n ≤ mems.length) (s : State) :
    (List.range n).foldlM (releaseMem mems) s =
      some { s with trace := s.trace ++ memCalls s.appCtx.rknnCtx (mems.take n) } := by
  induction n with
  | zero => simp [memCalls]
  | succ n ih =>
      have hlt : n < mems.length := hn
      rw [List.range_succ, List.foldlM_append, ih (by omega), Option.bind_eq_bind,
        Option.bind_some, List.foldlM_cons, List.take_succ_eq_append_getElem hlt]
      unfold releaseMem
      rw [List.getElem?_eq_getElem hlt]
      cases hmem : mems[n] with
      | none => simp [memCalls]
      | some m => simp [memCalls]

def RknnAppContext.mems (appCtx : RknnAppContext) : List (Option ℕ) :=
  appCtx.inputMems.toList.take appCtx.nInput ++ appCtx.outputMems.toList.take appCtx.nOutput

def RknnAppContext.released (appCtx : RknnAppContext) : RknnAppContext :=
  { appCtx with rknnCtx := 0, inputAttrs := none, outputAttrs := none }

def RknnAppContext.closing (appCtx : RknnAppContext) : List (HandleCall ℕ ℕ) :=
  if appCtx.rknnCtx ≠ 0 then [closeOwner appCtx.rknnCtx] else []

theorem releaseYolov5Model_eq {s : State} (hin : s.appCtx.nInput ≤ 2)
    (hout : s.appCtx.nOutput ≤ 3) :
    releaseYolov5Model s =
      some { appCtx := s.appCtx.released
             trace := s.trace ++ s.appCtx.closing ++ memCalls 0 s.appCtx.mems } := by
  obtain ⟨appCtx, trace⟩ := s
  have hclose : (if appCtx.rknnCtx ≠ 0 then
      (⟨{ appCtx with rknnCtx := 0 }, trace ++ [closeOwner appCtx.rknnCtx]⟩ : State)
      else ⟨appCtx, trace⟩) = ⟨{ appCtx with rknnCtx := 0 }, trace ++ appCtx.closing⟩ := by
    unfold RknnAppContext.closing
    by_cases hctx : appCtx.rknnCtx = 0
    · have hsame : { appCtx with rknnCtx := 0 } = appCtx := by rw [← hctx]
      rw [if_neg (not_not.mpr hctx), if_neg (not_not.mpr hctx), List.append_nil, hsame]
    · rw [if_pos hctx, if_pos hctx]
  unfold releaseYolov5Model
  simp only [hclose]
  rw [releaseMems_eq _ (by simpa using hin), Option.bind_eq_bind, Option.bind_some,
    releaseMems_eq _ (by simpa using hout)]
  simp [memCalls, RknnAppContext.mems, RknnAppContext.released]

theorem releaseTimes_closed {s : State} (hctx : s.appCtx.rknnCtx = 0) (hin : s.appCtx.nInput ≤ 2)
    (hout : s.appCtx.nOutput ≤ 3) (n : ℕ) :
    ∃ s', releaseTimes n s = some s' ∧
      s'.trace = s.trace ++ (List.replicate n (memCalls 0 s.appCtx.mems)).flatten := by
  induction n generalizing s with
  | zero => exact ⟨s, rfl, by simp⟩
  | succ n ih =>
      have hclosing : s.appCtx.closing = [] := if_neg (not_not.mpr hctx)
      have hrun := releaseYolov5Model_eq hin hout
      rw [hclosing, List.append_nil] at hrun
      obtain ⟨s', hs', htrace⟩ := ih (s := ⟨s.appCtx.released,
        s.trace ++ memCalls 0 s.appCtx.mems⟩) rfl hin hout
      refine ⟨s', ?_, ?_⟩
      · rw [releaseTimes, hrun]
        exact hs'
      · rw [htrace, List.replicate_succ, List.flatten_cons, List.append_assoc]
        rfl

theorem releaseTimes_eq {s : State} (hctx : s.appCtx.rknnCtx ≠ 0) (hin : s.appCtx.nInput ≤ 2)
    (hout : s.appCtx.nOutput ≤ 3) {n : ℕ} (hn : 0 < n) :
    ∃ s', releaseTimes n s = some s' ∧
      s'.trace = s.trace ++ [closeOwner s.appCtx.rknnCtx] ++
        (List.replicate n (memCalls 0 s.appCtx.mems)).flatten := by
  obtain ⟨n, rfl⟩ := Nat.exists_eq_add_of_lt hn
  rw [Nat.zero_add]
  have hclosing : s.appCtx.closing = [closeOwner s.appCtx.rknnCtx] := if_pos hctx
  have hrun := releaseYolov5Model_eq hin hout
  rw [hclosing] at hrun
  obtain ⟨s', hs', htrace⟩ := releaseTimes_closed (s := ⟨s.appCtx.released,
    s.trace ++ [closeOwner s.appCtx.rknnCtx] ++ memCalls 0 s.appCtx.mems⟩) rfl hin hout n
  refine ⟨s', ?_, ?_⟩
  · rw [releaseTimes, hrun]
    exact hs'
  · rw [htrace, List.replicate_succ, List.flatten_cons, ← List.append_assoc]
    rfl

/-! ## What `init_yolov5_model` leaves behind -/

/-- The context and the memory of the input have been asked for, and those of `k` outputs. -/
structure Loading (lib : Rknn) (k : ℕ) (s : State) : Prop where
  rknnCtx_eq : s.appCtx.rknnCtx = 0
  nInput_eq : s.appCtx.nInput = 0
  nOutput_eq : s.appCtx.nOutput = 0
  inputMems_eq : s.appCtx.inputMems = #v[lib.createMem 0, none]
  outputMems_eq : ∀ i (hi : i < 3), s.appCtx.outputMems[i] =
    if i < k then lib.createMem (i + 1) else none
  trace_eq : s.trace = openOwner lib.ctx :: (List.range (k + 1)).flatMap lib.created

structure Unstored (lib : Rknn) (s : State) : Prop where
  rknnCtx_eq : s.appCtx.rknnCtx = 0
  nInput_eq : s.appCtx.nInput = 0
  nOutput_eq : s.appCtx.nOutput = 0
  opened : openOwner lib.ctx ∈ s.trace
  not_closed : ∀ c, closeOwner c ∉ s.trace

section Init

variable {lib : Rknn} {k : ℕ} {s : State}

theorem eq_of_mem_created {call : HandleCall ℕ ℕ} {j : ℕ} (h : call ∈ lib.created j) :
    ∃ m, call = create lib.ctx m := by
  unfold Rknn.created at h
  cases hmem : lib.createMem j with
  | none =>
      rw [hmem] at h
      exact absurd h List.not_mem_nil
  | some m =>
      rw [hmem] at h
      exact ⟨m, List.mem_singleton.mp h⟩

theorem mem_created {c m j : ℕ} (h : create c m ∈ lib.created j) : c = lib.ctx := by
  obtain ⟨m', heq⟩ := eq_of_mem_created h
  injection heq

theorem destroy_not_mem_created {c m j : ℕ} : destroy c m ∉ lib.created j := by
  intro h
  obtain ⟨m', heq⟩ := eq_of_mem_created h
  exact absurd heq (by simp)

theorem closeOwner_not_mem_created {c j : ℕ} : closeOwner c ∉ lib.created j := by
  intro h
  obtain ⟨m', heq⟩ := eq_of_mem_created h
  exact absurd heq (by simp)

theorem Loading.unstored (h : Loading lib k s) : Unstored lib s where
  rknnCtx_eq := h.rknnCtx_eq
  nInput_eq := h.nInput_eq
  nOutput_eq := h.nOutput_eq
  opened := by
    rw [h.trace_eq]
    exact List.mem_cons_self
  not_closed := by
    intro c hmem
    rw [h.trace_eq] at hmem
    rcases List.mem_cons.mp hmem with heq | hmem
    · exact absurd heq (by simp)
    · obtain ⟨j, -, hj⟩ := List.mem_flatMap.mp hmem
      exact closeOwner_not_mem_created hj

theorem setInput_loading :
    (setInput lib ⟨.zero, [openOwner lib.ctx]⟩).Satisfies (Loading lib 0) (Loading lib 0) := by
  have hstate : Loading lib 0
      { appCtx := { RknnAppContext.zero with
          inputMems := RknnAppContext.zero.inputMems.set 0 (lib.createMem 0) Nat.zero_lt_two }
        trace := [openOwner lib.ctx] ++ lib.created 0 } := by
    refine ⟨rfl, rfl, rfl, rfl, ?_, ?_⟩
    · intro i hi
      obtain rfl | rfl | rfl : i = 0 ∨ i = 1 ∨ i = 2 := by omega
      · rfl
      · rfl
      · rfl
    · simp
  unfold setInput
  dsimp only
  split_ifs
  · exact hstate
  · exact hstate

theorem Loading.setOutput (h : Loading lib k s) {out : Round State State}
    (hround : setOutput lib s k = some out) :
    out.Satisfies (Loading lib (k + 1)) (Unstored lib) := by
  unfold Yolov5.setOutput at hround
  split at hround
  · rename_i hk
    have hstate : Loading lib (k + 1)
        { appCtx := { s.appCtx with
            outputMems := s.appCtx.outputMems.set k (lib.createMem (k + 1)) }
          trace := s.trace ++ lib.created (k + 1) } := by
      refine ⟨h.rknnCtx_eq, h.nInput_eq, h.nOutput_eq, h.inputMems_eq, ?_, ?_⟩
      · intro i hi
        by_cases hik : k = i
        · subst hik
          rw [if_pos (Nat.lt_succ_self k)]
          exact Vector.getElem_set_self _
        · have hiff : i < k + 1 ↔ i < k := by omega
          simp only [hiff]
          rw [← h.outputMems_eq i hi]
          exact Vector.getElem_set_ne _ _ hik
      · rw [h.trace_eq, List.range_succ (n := k + 1), List.flatMap_append,
          List.flatMap_singleton, List.cons_append]
    rw [← Option.some.inj hround]
    split_ifs
    · exact hstate.unstored
    · exact hstate
  · exact absurd hround (by simp)

theorem Loading.setOutputs (h : Loading lib 0 s) {n : ℕ} {out : Round State State}
    (hrun : loopRounds (Yolov5.setOutput lib) (List.range n) s = some out) :
    out.Satisfies (Loading lib n) (Unstored lib) := by
  apply loopRounds_range_rule (fun k s => Loading lib k s) (Unstored lib) hrun h
  intro k s out hround hs
  exact hs.setOutput hround

/-- **The ways `init_yolov5_model` returns.**  The library opened no context; or it did, and
one of the later calls failed; or all went well. -/
theorem initYolov5Model_cases {ret : ℤ} (h : initYolov5Model lib .zero = some (ret, s)) :
    (lib.init < 0 ∧ ret = -1 ∧ s = ⟨.zero, []⟩) ∨ (¬ lib.init < 0 ∧ ret = -1 ∧ Unstored lib s) ∨
      (ret = 0 ∧ ∃ s₀ input output inputAttrs outputAttrs, Loading lib lib.nOutput s₀ ∧
        s = storeModel lib s₀ input output inputAttrs outputAttrs) := by
  have hopened : Unstored lib ⟨.zero, [openOwner lib.ctx]⟩ :=
    ⟨rfl, rfl, rfl, List.mem_cons_self, fun c => by simp⟩
  have hfail : ∀ {s' : State}, some ((-1 : ℤ), s') = some (ret, s) → Unstored lib s' →
      ret = -1 ∧ Unstored lib s := by
    intro s' heq hs'
    obtain ⟨hret, hs⟩ := Prod.mk.inj (Option.some.inj heq)
    exact ⟨hret.symm, hs ▸ hs'⟩
  unfold initYolov5Model at h
  by_cases hinit : lib.init < 0
  · rw [if_pos hinit] at h
    obtain ⟨hret, hs⟩ := Prod.mk.inj (Option.some.inj h)
    exact .inl ⟨hinit, hret.symm, hs.symm⟩
  · rw [if_neg hinit] at h
    by_cases hnum : lib.queryNum ≠ rknnSucc
    · rw [if_pos hnum] at h
      exact .inr (.inl ⟨hinit, hfail h hopened⟩)
    · rw [if_neg hnum] at h
      split at h
      · exact .inr (.inl ⟨hinit, hfail h hopened⟩)
      · exact .inr (.inl ⟨hinit, hfail h hopened⟩)
      · obtain ⟨input, -, h⟩ := Option.bind_eq_some_iff.mp h
        have hloading : (setInput lib ⟨.zero, [openOwner lib.ctx]⟩).Satisfies (Loading lib 0)
            (Loading lib 0) := setInput_loading
        dsimp only at h
        cases hinput : setInput lib ⟨.zero, [openOwner lib.ctx]⟩ with
        | ret s₁ =>
            rw [hinput] at h hloading
            exact .inr (.inl ⟨hinit, hfail h (Loading.unstored hloading)⟩)
        | next s₁ =>
            rw [hinput] at h hloading
            obtain ⟨round, hround, h⟩ := Option.bind_eq_some_iff.mp h
            have houtputs := Loading.setOutputs hloading hround
            cases round with
            | ret s₂ => exact .inr (.inl ⟨hinit, hfail h houtputs⟩)
            | next s₂ =>
                obtain ⟨output, -, h⟩ := Option.bind_eq_some_iff.mp h
                obtain ⟨hret, hs⟩ := Prod.mk.inj (Option.some.inj h)
                exact .inr (.inr ⟨hret.symm, s₂, _, _, _, _, houtputs, hs.symm⟩)

end Init

/-! ## Two libraries -/

def anyAttr : TensorAttr where
  dims := #v[1, 640, 640, 3, 0, 0, 0, 0, 0, 0, 0, 0, 0, 0, 0, 0]
  fmt := .nhwc
  type := .int8
  qntType := .affineAsymmetric
  zp := -128
  scale := 1 / 255

def goodLibrary : Rknn where
  init := 0
  ctx := 1
  ctx_ne := by decide
  queryNum := 0
  nInput := 1
  nOutput := 3
  queryInput := fun _ => (0, anyAttr)
  queryOutput := fun _ => (0, anyAttr)
  createMem := fun k => some (k + 1)
  setIoMem := fun _ => 0

def failingLibrary : Rknn := { goodLibrary with queryNum := -1 }

/-! ## After a failure -/

theorem Unstored.release {lib : Rknn} {s : State} (h : Unstored lib s) :
    ∃ s', releaseYolov5Model s = some s' ∧ s'.trace = s.trace := by
  have hin : s.appCtx.nInput ≤ 2 := h.nInput_eq ▸ Nat.zero_le 2
  have hout : s.appCtx.nOutput ≤ 3 := h.nOutput_eq ▸ Nat.zero_le 3
  have hclosing : s.appCtx.closing = [] := if_neg (not_not.mpr h.rknnCtx_eq)
  have hmems : s.appCtx.mems = [] := by
    unfold RknnAppContext.mems
    rw [h.nInput_eq, h.nOutput_eq]
    rfl
  refine ⟨_, releaseYolov5Model_eq hin hout, ?_⟩
  rw [hclosing, hmems, List.append_nil]
  exact List.append_nil _

/-- **What a failed initialisation leaks.**  Nothing exactly if it failed to open the
context. -/
theorem failedInit_noLeak_iff {lib : Rknn} {s : State}
    (hinit : initYolov5Model lib .zero = some (-1, s)) :
    ∃ s', releaseYolov5Model s = some s' ∧ (NoLeak s'.trace ↔ lib.init < 0) := by
  rcases initYolov5Model_cases hinit with ⟨hneg, -, rfl⟩ | ⟨hopen, -, hs⟩ | ⟨hret, -⟩
  · exact ⟨_, rfl, iff_of_true noLeak_nil hneg⟩
  · obtain ⟨s', hrun, htrace⟩ := hs.release
    refine ⟨s', hrun, iff_of_false ?_ hopen⟩
    intro hleak
    rw [htrace] at hleak
    exact hs.not_closed _ (hleak.closed _ hs.opened)
  · exact absurd hret (by decide)

theorem failedInit_noLeak_iff_failingLibrary :
    ∃ s s', initYolov5Model failingLibrary .zero = some (-1, s) ∧
      releaseYolov5Model s = some s' ∧ (NoLeak s'.trace ↔ failingLibrary.init < 0) := by
  obtain ⟨s, hs⟩ : ∃ s, initYolov5Model failingLibrary .zero = some (-1, s) := ⟨_, rfl⟩
  obtain ⟨s', hrun, hiff⟩ := failedInit_noLeak_iff hs
  exact ⟨s, s', hs, hrun, hiff⟩

theorem failingLibrary_leaks :
    ∃ s s', initYolov5Model failingLibrary .zero = some (-1, s) ∧
      releaseYolov5Model s = some s' ∧ ¬ NoLeak s'.trace := by
  refine ⟨_, _, rfl, rfl, ?_⟩
  intro hleak
  exact absurd (hleak.closed 1 (by decide)) (by decide)

/-! ## After a success -/

section Success

variable {lib : Rknn} {s₀ : State} {input output : TensorAttr}
  {inputAttrs outputAttrs : List TensorAttr}

theorem storeModel_release (lib : Rknn) (s₀ : State) (input output : TensorAttr)
    (inputAttrs outputAttrs : List TensorAttr) :
    let s := storeModel lib s₀ input output inputAttrs outputAttrs
    s.trace = s₀.trace ∧ s.appCtx.rknnCtx = lib.ctx ∧ s.appCtx.nInput = lib.nInput ∧
      s.appCtx.nOutput = lib.nOutput ∧ s.appCtx.inputMems = s₀.appCtx.inputMems ∧
      s.appCtx.outputMems = s₀.appCtx.outputMems := by
  unfold storeModel
  dsimp only
  split_ifs
  · exact ⟨rfl, rfl, rfl, rfl, rfl, rfl⟩
  · exact ⟨rfl, rfl, rfl, rfl, rfl, rfl⟩

theorem Loading.mems_none (h : Loading lib lib.nOutput s₀)
    (hnone : ∀ k ≤ lib.nOutput, lib.createMem k = none) :
    (∀ mem ∈ s₀.appCtx.inputMems.toList, mem = none) ∧
      ∀ mem ∈ s₀.appCtx.outputMems.toList, mem = none := by
  constructor
  · intro mem hmem
    rw [h.inputMems_eq, hnone 0 (Nat.zero_le _)] at hmem
    simpa using hmem
  · intro mem hmem
    rw [Vector.mem_toList_iff, Vector.mem_iff_getElem] at hmem
    obtain ⟨i, hi, rfl⟩ := hmem
    rw [h.outputMems_eq i hi]
    split_ifs with hlt
    · exact hnone (i + 1) hlt
    · rfl

def lifeTrace (lib : Rknn) (mems : List (Option ℕ)) (n : ℕ) : List (HandleCall ℕ ℕ) :=
  openOwner lib.ctx :: (List.range (lib.nOutput + 1)).flatMap lib.created ++
    [closeOwner lib.ctx] ++ (List.replicate n (memCalls 0 mems)).flatten

variable {mems : List (Option ℕ)} {n c m : ℕ}

theorem mem_lifeTrace {call : HandleCall ℕ ℕ} (h : call ∈ lifeTrace lib mems n) :
    call = openOwner lib.ctx ∨ (∃ j, call ∈ lib.created j) ∨ call = closeOwner lib.ctx ∨
      call ∈ memCalls 0 mems := by
  unfold lifeTrace at h
  rcases List.mem_append.mp h with h | h
  · rcases List.mem_append.mp h with h | h
    · rcases List.mem_cons.mp h with heq | h
      · exact .inl heq
      · obtain ⟨j, -, hj⟩ := List.mem_flatMap.mp h
        exact .inr (.inl ⟨j, hj⟩)
    · exact .inr (.inr (.inl (List.mem_singleton.mp h)))
  · obtain ⟨l, hl, h⟩ := List.mem_flatten.mp h
    rw [List.eq_of_mem_replicate hl] at h
    exact .inr (.inr (.inr h))

theorem destroy_mem_lifeTrace (h : destroy c m ∈ lifeTrace lib mems n) : c = 0 := by
  rcases mem_lifeTrace h with heq | ⟨j, hj⟩ | heq | hmem
  · exact absurd heq (by simp)
  · exact absurd hj destroy_not_mem_created
  · exact absurd heq (by simp)
  · exact destroy_mem_memCalls hmem

theorem create_mem_lifeTrace (h : create c m ∈ lifeTrace lib mems n) : c = lib.ctx := by
  rcases mem_lifeTrace h with heq | ⟨j, hj⟩ | heq | hmem
  · exact absurd heq (by simp)
  · exact mem_created hj
  · exact absurd heq (by simp)
  · exact absurd hmem create_not_mem_memCalls

theorem lifeTrace_balanced_iff (hmems : (∀ k ≤ lib.nOutput, lib.createMem k = none) →
    ∀ mem ∈ mems, mem = none) :
    Balanced (lifeTrace lib mems n) ↔ ∀ k ≤ lib.nOutput, lib.createMem k = none := by
  constructor
  · intro hbalanced k hk
    by_contra hsome
    obtain ⟨m, hm⟩ := Option.ne_none_iff_exists'.mp hsome
    have hcreated : create lib.ctx m ∈ lib.created k := by
      unfold Rknn.created
      rw [hm]
      exact List.mem_cons_self
    have hcreate : create lib.ctx m ∈ lifeTrace lib mems n := by
      apply List.mem_append_left
      apply List.mem_append_left
      apply List.mem_cons_of_mem
      exact List.mem_flatMap.mpr ⟨k, List.mem_range.mpr (by omega), hcreated⟩
    obtain ⟨c, hdestroy, hown⟩ := hbalanced.destroy_of_create hcreate
    exact lib.ctx_ne ((create_mem_lifeTrace hown).symm.trans (destroy_mem_lifeTrace hdestroy))
  · intro hnone
    have hcreated : (List.range (lib.nOutput + 1)).flatMap lib.created = [] := by
      apply List.flatMap_eq_nil_iff.mpr
      intro k hk
      unfold Rknn.created
      rw [hnone k (by have := List.mem_range.mp hk; omega)]
    have htrace : lifeTrace lib mems n = [openOwner lib.ctx, closeOwner lib.ctx] := by
      unfold lifeTrace
      rw [hcreated, memCalls_of_none (hmems hnone)]
      simp
    rw [htrace]
    exact balanced_open_close lib.ctx

theorem Loading.not_balanced (h : Loading lib lib.nOutput s₀) : ¬ Balanced s₀.trace := by
  intro hbalanced
  have hopened : openOwner lib.ctx ∈ s₀.trace := h.unstored.opened
  have hcount := hbalanced.closed_once _ hopened
  rw [List.count_eq_zero_of_not_mem (h.unstored.not_closed _)] at hcount
  exact absurd hcount (by decide)

/-- **When the release of a model is balanced.**  However often `release_yolov5_model` is
called, never once a memory was created. -/
theorem release_balanced_iff {s : State} (hinit : initYolov5Model lib .zero = some (0, s))
    (hin : lib.nInput ≤ 2) (hout : lib.nOutput ≤ 3) (calls : ℕ) :
    ∃ s', releaseTimes calls s = some s' ∧
      (Balanced s'.trace ↔ 0 < calls ∧ ∀ k ≤ lib.nOutput, lib.createMem k = none) := by
  rcases initYolov5Model_cases hinit with ⟨-, hret, -⟩ | ⟨-, hret, -⟩ |
    ⟨-, s₀, input, output, inputAttrs, outputAttrs, hs₀, rfl⟩
  · exact absurd hret (by decide)
  · exact absurd hret (by decide)
  obtain ⟨htrace, hctx, hnin, hnout, hinputs, houtputs⟩ :=
    storeModel_release lib s₀ input output inputAttrs outputAttrs
  rcases Nat.eq_zero_or_pos calls with rfl | hcalls
  · refine ⟨_, rfl, iff_of_false ?_ fun h => absurd h.1 (Nat.lt_irrefl 0)⟩
    rw [htrace]
    exact hs₀.not_balanced
  · obtain ⟨s', hrun, hcallsTrace⟩ := releaseTimes_eq (hctx ▸ lib.ctx_ne) (hnin ▸ hin)
      (hnout ▸ hout) hcalls
    refine ⟨s', hrun, ?_⟩
    rw [hcallsTrace, htrace, hctx, hs₀.trace_eq, and_iff_right hcalls]
    apply lifeTrace_balanced_iff
    intro hnone mem hmem
    obtain ⟨hinputsNone, houtputsNone⟩ := hs₀.mems_none hnone
    rw [RknnAppContext.mems, hinputs, houtputs] at hmem
    rcases List.mem_append.mp hmem with h | h
    · exact hinputsNone mem (List.mem_of_mem_take h)
    · exact houtputsNone mem (List.mem_of_mem_take h)

theorem release_balanced_iff_goodLibrary :
    ∃ s s', initYolov5Model goodLibrary .zero = some (0, s) ∧ releaseTimes 2 s = some s' ∧
      (Balanced s'.trace ↔ 0 < 2 ∧ ∀ k ≤ goodLibrary.nOutput, goodLibrary.createMem k = none) := by
  obtain ⟨s, hs⟩ : ∃ s, initYolov5Model goodLibrary .zero = some (0, s) := ⟨_, rfl⟩
  obtain ⟨s', hrun, hiff⟩ := release_balanced_iff hs (by decide) (by decide) 2
  exact ⟨s, s', hs, hrun, hiff⟩

theorem goodLibrary_unbalanced :
    ∃ s s', initYolov5Model goodLibrary .zero = some (0, s) ∧ releaseTimes 1 s = some s' ∧
      ¬ Balanced s'.trace := by
  refine ⟨_, _, rfl, rfl, ?_⟩
  intro hbalanced
  have hdestroy : create 0 1 ∈ _ := hbalanced.create_of_destroy (c := 0) (m := 1) (by decide)
  exact absurd hdestroy (by decide)

end Success

end CatDect.Yolov5
