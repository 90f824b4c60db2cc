import CatDect.Postprocess.Candidates
import CatDect.Support.Lines

/-!
# The class labels

`init_post_process` reads the label file line by line into the table `labels`, from which
`coco_cls_to_name` takes the names.  `readLine` grows its buffer by one byte for each
character, and tells the end of the file from an empty line by the last character read
together with the length.
-/

namespace CatDect.Postprocess

open CatDect.Support

/-! ## The code -/

abbrev Byte : Type := UInt8

def newline : Byte := 10

/-- Which requests for memory are granted, and what uninitialised bytes hold. -/
structure Memory where
  grants : ℕ → Bool
  uninitialised : Byte

namespace Memory

def malloc (mem : Memory) (size : ℕ) : Option (List Byte) :=
  if mem.grants size then some (List.replicate size mem.uninitialised) else none

def realloc (mem : Memory) (buffer : List Byte) (size : ℕ) : Option (List Byte) :=
  if mem.grants size then
    some (buffer.take size ++ List.replicate (size - buffer.length) mem.uninitialised)
  else none

end Memory

/-- A file that can be opened; `error` is what `ferror` says once its bytes are used up. -/
structure LabelFile where
  content : List Byte
  error : Bool

/-- How the loop of `readLine` ends; `ch` is the last character, `none` for `EOF`. -/
inductive Scan where
  | outOfMemory (rest : List Byte)
  | stopped (ch : Option Byte) (buffer : List Byte) (i buffLen : ℕ) (rest : List Byte)

/-- The loop of `readLine`, over the bytes that `fgetc` has not yet returned. -/
def scanChars (mem : Memory) : List Byte → List Byte → ℕ → ℕ → Option Scan
  | [], buffer, i, buffLen => some (.stopped none buffer i buffLen [])
  | ch :: rest, buffer, i, buffLen =>
      if ch = newline then some (.stopped (some ch) buffer i buffLen rest)
      else
        match mem.realloc buffer (buffLen + 1 + 1) with
        | none => some (.outOfMemory rest)
        | some tmp => do
            let buffer ← writeAt tmp i ch
            scanChars mem rest buffer (i + 1) (buffLen + 1)

/-- What `readLine` returns, what it leaves in `*len`, and the rest of the file. -/
structure Line where
  buffer : Option (List Byte)
  len : ℕ
  rest : List Byte

def readLine (mem : Memory) (file : LabelFile) (len : ℕ) : Option Line := do
  let buffLen := 0
  match mem.malloc (buffLen + 1) with
  | none => some ⟨none, len, file.content⟩
  | some buffer =>
      match ← scanChars mem file.content buffer 0 buffLen with
      | .outOfMemory rest => some ⟨none, len, rest⟩
      | .stopped ch buffer i buffLen rest => do
          let buffer ← writeAt buffer i 0
          if ch = none ∧ (i = 0 ∨ file.error) then some ⟨none, buffLen, rest⟩
          else some ⟨some buffer, buffLen, rest⟩

/-- Pointers to lines; null pointers are `none`. -/
abbrev LabelTable : Type := List (Option (List Byte))

def readLinesLoop (mem : Memory) (maxLine : ℕ) :
    ℕ → LabelFile → LabelTable → ℕ → ℕ → Option (LabelTable × ℕ)
  | 0, _, _, _, _ => none
  | fuel + 1, file, lines, i, n => do
      let line ← readLine mem file n
      match line.buffer with
      | none => some (lines, i)
      | some s => do
          let lines ← writeAt lines i (some s)
          if i + 1 ≥ maxLine then some (lines, i + 1)
          else
            readLinesLoop mem maxLine fuel { file with content := line.rest } lines (i + 1)
              line.len

/-- `readLines`; no file is there if `fopen` fails. -/
def readLines (mem : Memory) (fuel : ℕ) (file : Option LabelFile) (lines : LabelTable)
    (maxLine : ℕ) : Option (LabelTable × ℤ) :=
  match file with
  | none => some (lines, -1)
  | some file => do
      let (lines, i) ← readLinesLoop mem maxLine fuel file lines 0 0
      some (lines, i)

def loadLabelName (mem : Memory) (fuel : ℕ) (file : Option LabelFile) (label : LabelTable) :
    Option (LabelTable × ℤ) := do
  let (label, _) ← readLines mem fuel file label objClassNum
  some (label, 0)

def initPostProcess (mem : Memory) (fuel : ℕ) (file : Option LabelFile) (labels : LabelTable) :
    Option (LabelTable × ℤ) := do
  let (labels, ret) ← loadLabelName mem fuel file labels
  if ret < 0 then some (labels, -1) else some (labels, 0)

def nullName : List Byte := [110, 117, 108, 108, 0]

def cocoClsToName (labels : LabelTable) (clsId : ℤ) : Option (List Byte) :=
  if clsId ≥ objClassNum then some nullName
  else do
    let label ← readAt labels clsId
    match label with
    | some name => some name
    | none => some nullName

/-- The string that a pointer to these bytes stands for. -/
def cString (buffer : List Byte) : List Byte := buffer.takeWhile (· ≠ 0)

/-! ## One line -/

def Memory.Ample (mem : Memory) (n : ℕ) : Prop := ∀ size ≤ n, mem.grants size = true

theorem Memory.Ample.mono {mem : Memory} {m n : ℕ} (h : mem.Ample n) (hmn : m ≤ n) :
    mem.Ample m :=
  fun size hsize => h size (hsize.trans hmn)

section Line

theorem realloc_spec (mem : Memory) (done : List Byte) (u : Byte) :
    mem.realloc (done ++ [u]) (done.length + 1 + 1) = none ∧ ¬ mem.Ample (done.length + 2) ∨
      mem.realloc (done ++ [u]) (done.length + 1 + 1) = some (done ++ [u, mem.uninitialised]) := by
  unfold Memory.realloc
  by_cases hgrant : mem.grants (done.length + 1 + 1) = true
  · right
    have hlength : (done ++ [u]).length = done.length + 1 := by simp
    rw [if_pos hgrant, hlength, List.take_of_length_le (by omega), Nat.add_sub_cancel_left,
      List.append_assoc]
    rfl
  · left
    rw [if_neg hgrant]
    exact ⟨rfl, fun hample => hgrant (hample _ le_rfl)⟩

/-- The loop reads up to the next newline or to the end, unless memory runs out. -/
theorem scanChars_spec (mem : Memory) {line tail : List Byte} (hline : newline ∉ line)
    (htail : tail = [] ∨ ∃ rest, tail = newline :: rest) (done : List Byte) (u : Byte) :
    (∃ rest, scanChars mem (line ++ tail) (done ++ [u]) done.length done.length =
        some (.outOfMemory rest)) ∧ ¬ mem.Ample (done.length + line.length + 1) ∨
      ∃ u', scanChars mem (line ++ tail) (done ++ [u]) done.length done.length =
        some (.stopped tail.head? (done ++ line ++ [u']) (done ++ line).length
          (done ++ line).length tail.tail) := by
  induction line generalizing done u with
  | nil =>
      right
      refine ⟨u, ?_⟩
      rw [List.append_nil, List.nil_append]
      rcases htail with rfl | ⟨rest, rfl⟩
      · rfl
      · rw [scanChars, if_pos rfl]
        rfl
  | cons ch line ih =>
      have hch : ch ≠ newline := fun heq => hline (heq ▸ List.mem_cons_self)
      have hrest : newline ∉ line := fun hmem => hline (List.mem_cons_of_mem _ hmem)
      rw [List.cons_append, scanChars, if_neg hch, List.length_cons]
      rcases realloc_spec mem done u with ⟨hnone, hample⟩ | hsome
      · left
        rw [hnone]
        exact ⟨⟨_, rfl⟩, fun hall => hample (hall.mono (by omega))⟩
      · have hstore : writeAt (done ++ [u, mem.uninitialised]) done.length ch =
            some ((done ++ [ch]) ++ [mem.uninitialised]) := by
          rw [writeAt_natCast (by simp), List.set_append_right _ _ le_rfl, Nat.sub_self,
            List.append_assoc]
          rfl
        have hjoin : done ++ [ch] ++ line = done ++ ch :: line := by
          rw [List.append_assoc]
          rfl
        have hsize : done.length + 1 + line.length + 1 =
            done.length + (line.length + 1) + 1 := by omega
        have hnext := ih hrest (done ++ [ch]) mem.uninitialised
        rw [hjoin, List.length_append, List.length_singleton, hsize] at hnext
        rw [hsome]
        dsimp only
        rw [hstore, Option.bind_eq_bind, Option.bind_some]
        exact hnext

def NoLine (file : LabelFile) (line tail : List Byte) : Prop :=
  tail = [] ∧ (line = [] ∨ file.error = true)

theorem readLine_spec (mem : Memory) {file : LabelFile} {line tail : List Byte}
    (hcontent : file.content = line ++ tail) (hline : newline ∉ line)
    (htail : tail = [] ∨ ∃ rest, tail = newline :: rest) (len : ℕ) :
    ∃ l, readLine mem file len = some l ∧
      ((l.buffer = none ∧ (NoLine file line tail ∨ ¬ mem.Ample (line.length + 1))) ∨
        ¬ NoLine file line tail ∧ l.buffer = some (line ++ [0]) ∧ l.rest = tail.tail) := by
  by_cases hgrant : mem.grants (0 + 1) = true
  · have hmalloc : mem.malloc (0 + 1) = some ([] ++ [mem.uninitialised]) := if_pos hgrant
    have hscan := scanChars_spec mem hline htail [] mem.uninitialised
    rw [List.length_nil, List.nil_append line, ← hcontent, Nat.zero_add] at hscan
    rcases hscan with ⟨⟨rest, hscan⟩, hample⟩ | ⟨u, hscan⟩
    · refine ⟨⟨none, len, rest⟩, ?_, .inl ⟨rfl, .inr hample⟩⟩
      simp only [readLine, hmalloc, hscan, Option.bind_eq_bind, Option.bind_some]
    · have hstore : writeAt (line ++ [u]) line.length 0 = some (line ++ [0]) := by
        rw [writeAt_natCast (by simp), List.set_append_right _ _ le_rfl, Nat.sub_self]
        rfl
      have hend : tail.head? = none ∧ (line.length = 0 ∨ file.error = true) ↔
          NoLine file line tail := by
        unfold NoLine
        rw [List.head?_eq_none_iff, List.length_eq_zero_iff]
      by_cases hnone : NoLine file line tail
      · refine ⟨⟨none, line.length, tail.tail⟩, ?_, .inl ⟨rfl, .inl hnone⟩⟩
        simp only [readLine, hmalloc, hscan, hstore, Option.bind_eq_bind, Option.bind_some]
        exact if_pos (hend.mpr hnone)
      · refine ⟨⟨some (line ++ [0]), line.length, tail.tail⟩, ?_, .inr ⟨hnone, rfl, rfl⟩⟩
        simp only [readLine, hmalloc, hscan, hstore, Option.bind_eq_bind, Option.bind_some]
        exact if_neg (hend.not.mpr hnone)
  · refine ⟨⟨none, len, file.content⟩, ?_,
      .inl ⟨rfl, .inr fun hample => hgrant (hample _ (by omega))⟩⟩
    have hmalloc : mem.malloc (0 + 1) = none := if_neg hgrant
    simp only [readLine, hmalloc]

end Line

/-! ## The table -/

section Table

variable {mem : Memory}

def emptyTable : LabelTable := List.replicate objClassNum none

def tableOf (lines : List (List Byte)) : LabelTable :=
  lines.map (fun line => some (line ++ [0])) ++
    List.replicate (objClassNum - lines.length) none

theorem writeAt_tableOf {lines : List (List Byte)} (h : lines.length < objClassNum)
    (line : List Byte) :
    writeAt (tableOf lines) lines.length (some (line ++ [0])) =
      some (tableOf (lines ++ [line])) := by
  obtain ⟨free, hfree⟩ : ∃ free, objClassNum - lines.length = free + 1 :=
    ⟨objClassNum - lines.length - 1, by omega⟩
  have hleft : objClassNum - (lines ++ [line]).length = free := by
    rw [List.length_append, List.length_singleton]
    omega
  have hlength : lines.length < (tableOf lines).length := by
    rw [tableOf, List.length_append, List.length_map, List.length_replicate]
    omega
  rw [writeAt_natCast hlength]
  unfold tableOf
  rw [hleft, hfree, List.set_append_right _ _ (by rw [List.length_map]), List.length_map,
    Nat.sub_self, List.replicate_succ, List.set_cons_zero, List.map_append, List.append_assoc]
  rfl

theorem exists_line (content : List Byte) :
    ∃ line tail, content = line ++ tail ∧ newline ∉ line ∧
      (tail = [] ∨ ∃ rest, tail = newline :: rest) := by
  by_cases hnewline : newline ∈ content
  · obtain ⟨line, rest, hsplit, hline⟩ := List.eq_append_cons_of_mem hnewline
    exact ⟨line, newline :: rest, hsplit, hline, .inr ⟨rest, rfl⟩⟩
  · exact ⟨content, [], (List.append_nil content).symm, hnewline, .inl rfl⟩

theorem linesOf_first {file : LabelFile} {line tail : List Byte} (hline : newline ∉ line)
    (htail : tail = [] ∨ ∃ rest, tail = newline :: rest) (h : ¬ NoLine file line tail) :
    linesOf newline (line ++ tail) = line :: linesOf newline tail.tail := by
  rcases htail with rfl | ⟨rest, rfl⟩
  · have hne : line ≠ [] := fun hnil => h ⟨rfl, .inl hnil⟩
    rw [List.append_nil, linesOf_last hline hne]
    rfl
  · exact linesOf_terminated hline rest

def Complete (mem : Memory) (file : LabelFile) : Prop :=
  file.error = false ∧ mem.Ample (file.content.length + 1)

theorem Complete.rest {file : LabelFile} {line tail : List Byte} (h : Complete mem file)
    (hcontent : file.content = line ++ tail) :
    Complete mem { file with content := tail.tail } := by
  refine ⟨h.1, h.2.mono ?_⟩
  rw [hcontent, List.length_append]
  show tail.tail.length + 1 ≤ line.length + tail.length + 1
  rw [List.length_tail]
  omega

theorem readLinesLoop_spec (mem : Memory) (fuel : ℕ) (file : LabelFile)
    (done : List (List Byte)) (n : ℕ) (hroom : done.length < objClassNum)
    (hfuel : objClassNum - done.length ≤ fuel) :
    ∃ k, readLinesLoop mem objClassNum fuel file (tableOf done) done.length n =
        some (tableOf (done ++ (linesOf newline file.content).take k),
          (done ++ (linesOf newline file.content).take k).length) ∧
      done.length + k ≤ objClassNum ∧
      (Complete mem file → done.length + k < objClassNum →
        (linesOf newline file.content).length ≤ k) := by
  induction fuel generalizing file done n with
  | zero => omega
  | succ fuel ih =>
      obtain ⟨line, tail, hcontent, hline, htail⟩ := exists_line file.content
      obtain ⟨l, hread, hl⟩ := readLine_spec mem hcontent hline htail n
      rw [readLinesLoop, hread, Option.bind_eq_bind, Option.bind_some]
      rcases hl with ⟨hnone, hwhy⟩ | ⟨hthere, hsome, hrest⟩
      · -- reading has ended: nothing is left, or the file is incomplete
        refine ⟨0, ?_, by omega, ?_⟩
        · rw [hnone, List.take_zero, List.append_nil]
        · intro hcomplete _
          rcases hwhy with ⟨rfl, hempty⟩ | hshort
          · rcases hempty with rfl | herror
            · rw [hcontent, List.append_nil, linesOf_nil]
              exact le_rfl
            · exact absurd (hcomplete.1 ▸ herror) Bool.false_ne_true
          · refine absurd (hcomplete.2.mono ?_) hshort
            rw [hcontent, List.length_append]
            omega
      · have hlines : linesOf newline file.content = line :: linesOf newline tail.tail :=
          hcontent ▸ linesOf_first hline htail hthere
        have hlength : (done ++ [line]).length = done.length + 1 := by
          rw [List.length_append, List.length_singleton]
        have hjoin (k : ℕ) : done ++ (linesOf newline file.content).take (k + 1) =
            (done ++ [line]) ++ (linesOf newline tail.tail).take k := by
          rw [hlines, List.take_succ_cons, List.append_assoc]
          rfl
        rw [hsome]
        dsimp only
        rw [writeAt_tableOf hroom, Option.bind_eq_bind, Option.bind_some, hrest]
        split
        · refine ⟨1, ?_, by omega, by omega⟩
          rw [hjoin 0, List.take_zero, List.append_nil, hlength]
        · obtain ⟨k, hrun, hk, hall⟩ := ih { file with content := tail.tail } (done ++ [line])
            l.len (by omega) (by omega)
          rw [hlength] at hrun hk hall
          refine ⟨k + 1, ?_, by omega, ?_⟩
          · rw [hjoin k]
            exact hrun
          · intro hcomplete hshort
            have hle := hall (hcomplete.rest hcontent) (by omega)
            rw [hlines, List.length_cons]
            exact Nat.succ_le_succ hle

theorem initPostProcess_spec (mem : Memory) (file : LabelFile) {fuel : ℕ}
    (hfuel : objClassNum ≤ fuel) :
    ∃ k ≤ objClassNum, initPostProcess mem fuel (some file) emptyTable =
        some (tableOf ((linesOf newline file.content).take k), 0) ∧
      (Complete mem file → k < objClassNum → (linesOf newline file.content).length ≤ k) := by
  have hempty : emptyTable = tableOf [] := rfl
  obtain ⟨k, hrun, hk, hall⟩ := readLinesLoop_spec mem fuel file [] 0
    (Nat.lt_of_sub_eq_succ rfl) (by simpa using hfuel)
  rw [List.nil_append, List.length_nil] at hrun
  rw [List.length_nil, Nat.zero_add] at hk hall
  refine ⟨k, hk, ?_, hall⟩
  unfold initPostProcess loadLabelName readLines
  rw [hempty]
  dsimp only
  rw [hrun]
  rfl

end Table

/-! ## The names -/

theorem cString_terminated {line : List Byte} (h : 0 ∉ line) : cString (line ++ [0]) = line := by
  have hall : ∀ b ∈ line, decide (b ≠ 0) = true := by
    intro b hb
    exact decide_eq_true fun hzero => h (hzero ▸ hb)
  unfold cString
  rw [List.takeWhile_append_of_pos hall]
  exact List.append_nil line

theorem tableOf_strings {lines : List (List Byte)} (h : ∀ line ∈ lines, 0 ∉ line) :
    (tableOf lines).map (Option.map cString) =
      lines.map some ++ List.replicate (objClassNum - lines.length) none := by
  have hline : ∀ line ∈ lines, (Option.map cString ∘ fun l => some (l ++ [0])) line =
      some line := by
    intro line hmem
    exact congrArg some (cString_terminated (h line hmem))
  rw [tableOf, List.map_append, List.map_map, List.map_replicate, List.map_congr_left hline]
  rfl

theorem tableOf_getElem? (lines : List (List Byte)) {n : ℕ} (h : n < objClassNum) :
    (tableOf lines)[n]? = some (lines[n]?.map (· ++ [0])) := by
  unfold tableOf
  by_cases hn : n < lines.length
  · rw [List.getElem?_append_left (by rwa [List.length_map]), List.getElem?_map,
      List.getElem?_eq_getElem hn]
    rfl
  · rw [List.getElem?_append_right (by rw [List.length_map]; omega), List.length_map,
      List.getElem?_replicate, if_pos (by omega), List.getElem?_eq_none (by omega)]
    rfl

/-- A class is named by its line, or `"null"` if the file has no such line. -/
theorem cocoClsToName_tableOf {lines : List (List Byte)} (h : ∀ line ∈ lines, 0 ∉ line)
    {clsId : ℤ} (h0 : 0 ≤ clsId) (hlt : clsId < objClassNum) :
    ∃ name, cocoClsToName (tableOf lines) clsId = some name ∧
      cString name = (lines[clsId.toNat]?).getD (cString nullName) := by
  obtain ⟨n, rfl⟩ : ∃ n : ℕ, clsId = n := ⟨clsId.toNat, by omega⟩
  rw [Int.toNat_natCast]
  unfold cocoClsToName
  rw [if_neg (by omega), readAt_natCast, tableOf_getElem? lines (by omega)]
  cases hline : lines[n]? with
  | none => exact ⟨nullName, rfl, rfl⟩
  | some line =>
      exact ⟨line ++ [0], rfl, cString_terminated (h line (List.mem_of_getElem? hline))⟩

/-- The labels are the first lines of the file, and each class has its line's name. -/
theorem initPostProcess_labels (mem : Memory) {content : List Byte} (hnul : 0 ∉ content)
    (hmem : mem.Ample (content.length + 1)) :
    ∃ labels,
      (∀ fuel ≥ objClassNum,
        initPostProcess mem fuel (some ⟨content, false⟩) emptyTable = some (labels, 0)) ∧
      labels.map (Option.map cString) =
        ((linesOf newline content).take objClassNum).map some ++
          List.replicate (objClassNum - (linesOf newline content).length) none ∧
      ∀ clsId : ℤ, 0 ≤ clsId → clsId < objClassNum →
        ∃ name, cocoClsToName labels clsId = some name ∧
          cString name =
            ((linesOf newline content)[clsId.toNat]?).getD (cString nullName) := by
  have hlines : ∀ line ∈ (linesOf newline content).take objClassNum, 0 ∉ line := by
    intro line hmem hzero
    exact hnul (mem_of_mem_linesOf (List.mem_of_mem_take hmem) hzero)
  refine ⟨tableOf ((linesOf newline content).take objClassNum), ?_, ?_, ?_⟩
  · intro fuel hfuel
    obtain ⟨k, hk, hrun, hall⟩ := initPostProcess_spec mem ⟨content, false⟩ hfuel
    have htake : (linesOf newline content).take k =
        (linesOf newline content).take objClassNum := by
      by_cases hshort : k < objClassNum
      · have hlength := hall ⟨rfl, hmem⟩ hshort
        rw [List.take_of_length_le hlength, List.take_of_length_le (hlength.trans hk)]
      · rw [Nat.le_antisymm hk (Nat.le_of_not_lt hshort)]
    rw [hrun, htake]
  · rw [tableOf_strings hlines, List.length_take]
    congr 2
    omega
  · intro clsId h0 hlt
    obtain ⟨name, hname, hstring⟩ := cocoClsToName_tableOf hlines h0 hlt
    refine ⟨name, hname, ?_⟩
    rw [hstring, List.getElem?_take_of_lt (by omega)]

theorem initPostProcess_labels_lines :
    (0 : Byte) ∉ [99, 97, 116, 10, 10, 100] ∧
      ∃ labels,
        initPostProcess ⟨fun _ => true, 7⟩ objClassNum
          (some ⟨[99, 97, 116, 10, 10, 100], false⟩) emptyTable = some (labels, 0) ∧
        ∃ name, cocoClsToName labels 1 = some name ∧ cString name = [] := by
  have hnul : (0 : Byte) ∉ [99, 97, 116, 10, 10, 100] := by decide
  have hlines : linesOf newline [99, 97, 116, 10, 10, 100] = [[99, 97, 116], [], [100]] := by
    decide
  obtain ⟨labels, hrun, -, hnames⟩ :=
    initPostProcess_labels ⟨fun _ => true, 7⟩ hnul fun _ _ => rfl
  obtain ⟨name, hname, hstring⟩ := hnames 1 (by decide) (by decide)
  rw [hlines] at hstring
  exact ⟨hnul, labels, hrun _ le_rfl, name, hname, hstring⟩

end CatDect.Postprocess
