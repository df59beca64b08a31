import Arws.Config.LineOrder
import Arws.Config.ModesKept

/-!
# Lines longer than the buffer

`arws_config_load` has a buffer of 512 bytes, and `save_config` writes lines of any length.  What is left of
a line behind 511 bytes is read as if it were a line of its own, so that a part of a comment can be a
directive, and a long list of addresses is not read back.

* `spelled_iff` — which texts are directives.
* `readByLine_iff` — a file is read line by line, if and only if no part of a long line is one.
* `listKept_iff` — the list that is written is read back, if and only if it fits the buffer.
* `readByLine_listKept_iff` — both.
-/

set_option autoImplicit false

namespace Arws
namespace Config

open CString TextFile

/-! ## Directives -/

/-- The names that a load asks for. -/
def settingNames : List Bytes :=
  [ascii "mode", ascii "global_mode", ascii "port", ascii "bind", ascii "cache_ttl",
    ascii "maintenance_ips"]

/-- The load acts on the line. -/
def ConfigLine.isDirective : ConfigLine → Bool
  | .nothing => false
  | .keyed key _ => key.contains 47
  | .setting name _ => settingNames.any (strcaseeq name)

/-- **Other lines change nothing.** -/
theorem read_of_not_directive (env : LoadEnv) (st : Loading) {d : ConfigLine} (h : d.isDirective = false) :
    st.read env d = st := by
  cases d with
  | nothing => rfl
  | keyed key val =>
    have hslash : strchr 47 key = none := by
      rw [strchr_eq_none_iff]
      simpa [ConfigLine.isDirective] using h
    rw [Loading.read, Loading.readKeyed, hslash]
    split_ifs <;> rfl
  | setting name value =>
    simp only [ConfigLine.isDirective, settingNames, List.any_cons, List.any_nil, Bool.or_false,
      Bool.or_eq_false_iff] at h
    obtain ⟨hmode, hglobal, hport, hbind, httl, hips⟩ := h
    rw [Loading.read, ArwsConfig.readSetting, hmode, hglobal, hport, hbind, httl, hips]
    rfl

/-- `"host/path" = value`. -/
def SpellsEntry (text : Bytes) : Prop :=
  ∃ key between value, text = 34 :: key ++ 34 :: (between ++ 61 :: value) ∧ (34 : UInt8) ∉ key ∧
    (47 : UInt8) ∈ key

/-- `name = value`, with a name that a load asks for. -/
def SpellsSetting (text : Bytes) : Prop :=
  ∃ name value, text = name ++ 61 :: value ∧ ∃ known ∈ settingNames, strcaseeq (trim name) known = true

/-- A piece of a line is a directive, blanks around it aside. -/
def Spelled (piece : Bytes) : Prop := SpellsEntry (trim (cstr piece)) ∨ SpellsSetting (trim (cstr piece))

/-- A text loses nothing but blanks at its ends. -/
theorem isEndBlank_or_mem_trim {c : UInt8} {s : Bytes} (h : c ∈ s) : isEndBlank c = true ∨ c ∈ trim s := by
  have hblank : ∀ c, isBlank c = true → isEndBlank c = true := by
    intro c hc
    simp only [isBlank, isEndBlank, Bool.or_eq_true] at hc ⊢
    exact Or.inl (Or.inl hc)
  rw [trim, strip]
  by_contra hno
  obtain ⟨hend, hmem⟩ := not_or.1 hno
  have hback : c ∈ s.rdropWhile isEndBlank := by
    rw [← List.rdropWhile_append_rtakeWhile (p := isEndBlank) (l := s)] at h
    obtain h | h := List.mem_append.1 h
    · exact h
    · exact absurd (List.mem_rtakeWhile_imp h) hend
  rw [← List.takeWhile_append_dropWhile (p := isBlank) (l := s.rdropWhile isEndBlank)] at hback
  obtain h | h := List.mem_append.1 hback
  · exact hend (hblank c (List.mem_takeWhile_imp h))
  · exact hmem h

/-- The letters of a name are none of the signs that a line is taken apart at. -/
theorem notMem_of_setting {name known : Bytes} (hknown : known ∈ settingNames)
    (hname : strcaseeq (trim name) known = true) : Without [34, 35, 61] name := by
  have hletters : ∀ known ∈ settingNames, Without [34, 35, 61] (known.map toLower) := by decide
  intro c hc hmem
  obtain ⟨hend, hlower⟩ : isEndBlank c = false ∧ toLower c = c := by
    simp only [List.mem_cons, List.not_mem_nil, or_false] at hc
    rcases hc with rfl | rfl | rfl <;> decide
  obtain hblank | htrim := isEndBlank_or_mem_trim hmem
  · rw [hend] at hblank
    cases hblank
  · refine hletters known hknown c hc ?_
    rw [strcaseeq, beq_iff_eq] at hname
    rw [← hname, ← hlower]
    exact List.mem_map_of_mem htrim

/-- **The directives are the texts that the load acts on.** -/
theorem spelled_iff {piece : Bytes} : Spelled piece ↔ (parseLine piece).isDirective = true := by
  rw [Spelled, parseLine]
  generalize trim (cstr piece) = text
  constructor
  · rintro (⟨key, between, value, rfl, hquote, hslash⟩ | ⟨name, value, rfl, known, hknown, hname⟩)
    · obtain ⟨eq, heq⟩ : ∃ eq, strchr 61 (between ++ 61 :: value) = some eq := by
        cases hnone : strchr 61 (between ++ 61 :: value) with
        | none => exact absurd (by simp) (strchr_eq_none_iff.1 hnone)
        | some eq => exact ⟨eq, rfl⟩
      have hdrop : (key ++ 34 :: (between ++ 61 :: value)).drop (key.length + 1) =
          between ++ 61 :: value := by
        rw [← List.drop_drop, List.drop_left' rfl]
        rfl
      simp only [List.cons_append, strchr_append hquote, hdrop, heq, ConfigLine.isDirective,
        List.take_left' rfl]
      simpa using hslash
    · have hsigns := notMem_of_setting hknown hname
      cases name with
      | nil =>
        have hempty : ∀ known ∈ settingNames, strcaseeq (trim []) known = false := by decide
        rw [hempty known hknown] at hname
        cases hname
      | cons c name =>
        have h34 : c ≠ 34 := fun hc => hsigns 34 (by simp) (by simp [hc])
        have h35 : c ≠ 35 := fun hc => hsigns 35 (by simp) (by simp [hc])
        have heq := strchr_append (hsigns 61 (by simp)) value
        rw [List.cons_append] at heq ⊢
        split
        · rename_i hnil
          cases hnil
        · rename_i rest hquote
          exact absurd (List.head_eq_of_cons_eq hquote) h34
        · rename_i d rest hd hcons
          obtain ⟨rfl, rfl⟩ := List.cons_eq_cons.1 hcons
          have htake : (c :: (name ++ 61 :: value)).take (c :: name).length = c :: name := by
            rw [← List.cons_append, List.take_left' rfl]
          rw [if_neg h35, heq]
          dsimp only
          rw [htake]
          exact List.any_eq_true.2 ⟨known, hknown, hname⟩
  · intro h
    split at h
    · cases h
    · rename_i rest
      cases hclose : strchr 34 rest with
      | none => simp [hclose, ConfigLine.isDirective] at h
      | some close =>
        cases heq : strchr 61 (rest.drop (close + 1)) with
        | none => simp [hclose, heq, ConfigLine.isDirective] at h
        | some eq =>
          obtain ⟨hrest, hquote⟩ := strchr_eq_some hclose
          obtain ⟨hbehind, -⟩ := strchr_eq_some heq
          refine Or.inl ⟨rest.take close, (rest.drop (close + 1)).take eq,
            (rest.drop (close + 1)).drop (eq + 1), ?_, hquote, ?_⟩
          · rw [← hbehind, List.cons_append, ← hrest]
          · simpa [hclose, heq, ConfigLine.isDirective] using h
    · rename_i c rest hc
      split_ifs at h with h35
      · cases h
      · cases heq : strchr 61 (c :: rest) with
        | none => simp [heq, ConfigLine.isDirective] at h
        | some eq =>
          obtain ⟨hrest, -⟩ := strchr_eq_some heq
          rw [heq] at h
          obtain ⟨known, hknown, hname⟩ := List.any_eq_true.1 h
          exact Or.inr ⟨_, _, hrest, known, hknown, hname⟩

/-! ## The pieces of a line -/

/-- What the buffer takes of a line when it is filled for the next time. -/
def linePiece (line : Bytes) (k : Nat) : Bytes := (line.drop (511 * k)).take 511

/-- There are only blanks around a piece of a line. -/
def OnlyBlanksAround (line : Bytes) (k : Nat) : Prop :=
  (∀ c ∈ line.take (511 * k), isBlank c = true) ∧ ∀ c ∈ line.drop (511 * (k + 1)), isEndBlank c = true

/-- **A file is read line by line**: what a load acts on is a whole line, blanks aside, and it comes to what
reading the lines comes to, where a line that does not fit the buffer may be left out. -/
structure ReadByLine (file : Bytes) : Prop where
  parts : ∀ line ∈ fileLines file, ∀ k, (parseLine (linePiece line k)).isDirective = true →
    OnlyBlanksAround line k
  whole : ∃ ignored : Bytes → Bool, (∀ line, ignored line = true → 511 < line.length) ∧
    ∀ (env : LoadEnv) (s : ArwsConfig), arwsConfigLoad env file s =
      ((fileLines file).filter fun line => !ignored line).foldl (Loading.readLine env) ⟨s.reset, []⟩

/-- **The pieces of a line are read one after the other.** -/
theorem settingsOf_drop {line : Bytes} (h : (10 : UInt8) ∉ line) (k : Nat) :
    settingsOf line = settingsOf (line.take (511 * k)) ++ settingsOf (line.drop (511 * k)) := by
  induction k generalizing line with
  | zero => rw [Nat.mul_zero, List.take_zero, List.drop_zero, settingsOf_of_nil, List.nil_append]
  | succ k ih =>
    by_cases hne : line = []
    · rw [hne, List.take_nil, List.drop_nil, settingsOf_of_nil, List.append_nil]
    · have hhead : line.take (511 * (k + 1)) ≠ [] := by simpa using hne
      have htake : (10 : UInt8) ∉ line.take (511 * (k + 1)) := fun hmem => h (List.mem_of_mem_take hmem)
      have hmin : min 511 (511 * (k + 1)) = 511 := by omega
      have hsum : 511 * (k + 1) = 511 + 511 * k := by omega
      have hdrop : (line.take (511 * (k + 1))).drop 511 = (line.drop 511).take (511 * k) := by
        rw [List.drop_take, hsum, Nat.add_sub_cancel_left]
      rw [settingsOf_line hne fun hmem => h (List.mem_of_mem_dropLast hmem),
        settingsOf_line hhead fun hmem => htake (List.mem_of_mem_dropLast hmem), List.take_take, hmin,
        hdrop, List.append_assoc, ih fun hmem => h (List.mem_of_mem_drop hmem), List.drop_drop, hsum]

theorem settingsOf_linePiece {line : Bytes} (h : (10 : UInt8) ∉ line) (k : Nat) :
    settingsOf (line.drop (511 * k)) =
      [parseLine (linePiece line k)].filter (· ≠ .nothing) ++ settingsOf (line.drop (511 * (k + 1))) := by
  have hrest : (10 : UInt8) ∉ line.drop (511 * k) := fun hmem => h (List.mem_of_mem_drop hmem)
  have hpiece : (10 : UInt8) ∉ linePiece line k := fun hmem => hrest (List.mem_of_mem_take hmem)
  have hlen : (linePiece line k).length ≤ 511 := List.length_take_le _ _
  rw [settingsOf_drop hrest 1, Nat.mul_one, List.drop_drop, ← settingsOf_of_short hpiece hlen]
  rfl

/-- A text without a sign of equality sets nothing. -/
theorem settingsOf_of_notMem {text : Bytes} (h : (61 : UInt8) ∉ text) : settingsOf text = [] := by
  rw [settingsOf, List.filter_eq_nil_iff]
  intro d hd
  obtain ⟨piece, hpiece, rfl⟩ := List.mem_map.1 hd
  rw [parseLine_of_notMem fun hmem => h ((infix_of_mem_pieces hpiece).subset hmem)]
  simp

/-- What a line sets is what one of its pieces says. -/
theorem exists_linePiece {line : Bytes} (h : (10 : UInt8) ∉ line) {d : ConfigLine}
    (hd : d ∈ settingsOf line) : ∃ k, parseLine (linePiece line k) = d := by
  suffices hfrom : ∀ n k, line.length ≤ 511 * (k + n) → d ∈ settingsOf (line.drop (511 * k)) →
      ∃ k, parseLine (linePiece line k) = d by
    refine hfrom line.length 0 (by omega) ?_
    rwa [Nat.mul_zero, List.drop_zero]
  intro n
  induction n with
  | zero =>
    intro k hlen hmem
    rw [List.drop_eq_nil_of_le (by omega), settingsOf_of_nil] at hmem
    cases hmem
  | succ n ih =>
    intro k hlen hmem
    rw [settingsOf_linePiece h, List.mem_append] at hmem
    obtain hmem | hmem := hmem
    · exact ⟨k, (List.mem_singleton.1 (List.mem_filter.1 hmem).1).symm⟩
    · exact ih (k + 1) (by omega) hmem

theorem trim_blanks_append {blanks : Bytes} (h : ∀ c ∈ blanks, isBlank c = true) (s : Bytes) :
    trim (blanks ++ s) = trim s := by
  induction blanks with
  | nil => rfl
  | cons c blanks ih =>
    obtain ⟨hc, hrest⟩ := List.forall_mem_cons.1 h
    have hend : isEndBlank c = true := by
      simp only [isBlank, isEndBlank, Bool.or_eq_true] at hc ⊢
      exact Or.inl (Or.inl hc)
    rw [List.cons_append, trim, strip_cons hc hend]
    exact ih hrest

theorem trim_append_blanks {blanks : Bytes} (h : ∀ c ∈ blanks, isEndBlank c = true) (s : Bytes) :
    trim (s ++ blanks) = trim s := by
  induction blanks using List.reverseRecOn with
  | nil => rw [List.append_nil]
  | append_singleton blanks c ih =>
    rw [← List.append_assoc, trim, strip_append_singleton (h c (by simp))]
    exact ih fun d hd => h d (List.mem_append_left _ hd)

/-- A line is read as its piece, when there are only blanks around it. -/
theorem parseLine_of_onlyBlanks {line : Bytes} {k : Nat} (h : OnlyBlanksAround line k) :
    parseLine line = parseLine (linePiece line k) := by
  obtain ⟨hfront, hback⟩ := h
  have hsplit : line = line.take (511 * k) ++ (linePiece line k ++ line.drop (511 * (k + 1))) := by
    have hrest : line.drop (511 * (k + 1)) = (line.drop (511 * k)).drop 511 := by
      rw [List.drop_drop]
      rfl
    rw [linePiece, hrest, List.take_append_drop, List.take_append_drop]
  have hzero : ∀ c, isEndBlank c = true → c ≠ 0 := by
    rintro c hc rfl
    cases hc
  have hblank : ∀ c, isBlank c = true → c ≠ 0 := by
    rintro c hc rfl
    cases hc
  have htrim : trim (cstr line) = trim (cstr (linePiece line k)) := by
    generalize linePiece line k = piece at hsplit
    generalize line.drop (511 * (k + 1)) = back at hback hsplit
    rw [hsplit, cstr_append fun hmem => hblank 0 (hfront 0 hmem) rfl, trim_blanks_append hfront]
    by_cases hmem : (0 : UInt8) ∈ piece
    · rw [cstr_append_of_mem hmem]
    · rw [cstr_append hmem, cstr_eq_self hmem, cstr_eq_self fun hmem => hzero 0 (hback 0 hmem) rfl,
        trim_append_blanks hback]
  rw [parseLine, parseLine, htrim]

/-- A long line that nothing is read from. -/
def ignoredLine (line : Bytes) : Bool :=
  decide (511 < line.length) && (settingsOf line).all fun d => !d.isDirective

theorem foldl_of_not_directive (env : LoadEnv) {ds : List ConfigLine} (h : ∀ d ∈ ds, d.isDirective = false)
    (st : Loading) : ds.foldl (Loading.read env) st = st := by
  induction ds generalizing st with
  | nil => rfl
  | cons d ds ih =>
    obtain ⟨hd, hds⟩ := List.forall_mem_cons.1 h
    rw [List.foldl_cons, read_of_not_directive env st hd, ih hds]

theorem foldl_filter_nothing (env : LoadEnv) (d : ConfigLine) (st : Loading) :
    ([d].filter (· ≠ .nothing)).foldl (Loading.read env) st = st.read env d := by
  cases d <;> rfl

/-- **A line is read as a whole**, or it is a long line and nothing is read from it. -/
theorem foldl_line (env : LoadEnv) {line : Bytes} (hlf : (10 : UInt8) ∉ line)
    (hparts : ∀ k, (parseLine (linePiece line k)).isDirective = true → OnlyBlanksAround line k)
    (st : Loading) :
    (settingsOf line).foldl (Loading.read env) st =
      if ignoredLine line = true then st else st.readLine env line := by
  by_cases hshort : line.length ≤ 511
  · have hkeep : ¬ ignoredLine line = true := by simp [ignoredLine, hshort]
    rw [if_neg hkeep, settingsOf_of_short hlf hshort, foldl_filter_nothing]
    rfl
  · by_cases hall : ∀ d ∈ settingsOf line, d.isDirective = false
    · have hignore : ignoredLine line = true := by
        rw [ignoredLine, Bool.and_eq_true, decide_eq_true_eq, List.all_eq_true]
        exact ⟨by omega, fun d hd => by rw [hall d hd]; rfl⟩
      rw [if_pos hignore, foldl_of_not_directive env hall]
    · obtain ⟨d, hd⟩ := not_forall.1 hall
      obtain ⟨hmem, hdirective⟩ := Classical.not_imp.1 hd
      rw [Bool.not_eq_false] at hdirective
      have hkeep : ¬ ignoredLine line = true := by
        rw [ignoredLine, Bool.and_eq_true, List.all_eq_true]
        intro h
        have := h.2 d hmem
        rw [hdirective] at this
        cases this
      obtain ⟨k, rfl⟩ := exists_linePiece hlf hmem
      have hblanks := hparts k hdirective
      -- what is around the piece sets nothing
      have hfront : settingsOf (line.take (511 * k)) = [] :=
        settingsOf_of_notMem fun h => absurd (hblanks.1 61 h) (by decide)
      have hback : settingsOf (line.drop (511 * (k + 1))) = [] :=
        settingsOf_of_notMem fun h => absurd (hblanks.2 61 h) (by decide)
      rw [if_neg hkeep, settingsOf_drop hlf k, hfront, List.nil_append, settingsOf_linePiece hlf, hback,
        List.append_nil, foldl_filter_nothing, Loading.readLine, parseLine_of_onlyBlanks hblanks]

/-- **When no part of a line is a directive**, the load is that of the lines. -/
theorem readByLine_of_parts {file : Bytes}
    (h : ∀ line ∈ fileLines file, ∀ k, (parseLine (linePiece line k)).isDirective = true →
      OnlyBlanksAround line k) : ReadByLine file := by
  refine ⟨h, ignoredLine, fun line hline => ?_, fun env s => ?_⟩
  · rw [ignoredLine, Bool.and_eq_true, decide_eq_true_eq] at hline
    exact hline.1
  · rw [load_eq_foldl, settingsOf_eq_flatMap]
    have hlf : ∀ line ∈ fileLines file, (10 : UInt8) ∉ line :=
      fun line hline => lf_notMem_of_mem_fileLines hline
    generalize fileLines file = lines at h hlf
    generalize (⟨s.reset, []⟩ : Loading) = st
    induction lines generalizing st with
    | nil => rfl
    | cons line lines ih =>
      obtain ⟨hline, hlines⟩ := List.forall_mem_cons.1 h
      obtain ⟨hlf, hlfs⟩ := List.forall_mem_cons.1 hlf
      rw [List.flatMap_cons, List.foldl_append, foldl_line env hlf hline, ih hlines hlfs, List.filter_cons]
      cases ignoredLine line <;> rfl

/-- **A file is read line by line, if and only if** every piece of a line longer than the buffer that is a
directive has only blanks around it. -/
theorem readByLine_iff (file : Bytes) :
    ReadByLine file ↔ ∀ line ∈ fileLines file, 511 < line.length → ∀ k, Spelled (linePiece line k) →
      OnlyBlanksAround line k := by
  constructor
  · intro h line hline _ k hspelled
    exact h.parts line hline k (spelled_iff.1 hspelled)
  · intro h
    refine readByLine_of_parts fun line hline k hdirective => ?_
    by_cases hlong : 511 < line.length
    · exact h line hline hlong k (spelled_iff.2 hdirective)
    · cases k with
      | zero =>
        refine ⟨fun c hc => ?_, fun c hc => ?_⟩
        · rw [Nat.mul_zero, List.take_zero] at hc
          cases hc
        · rw [List.drop_eq_nil_of_le (by omega)] at hc
          cases hc
      | succ k =>
        rw [linePiece, List.drop_eq_nil_of_le (by omega)] at hdirective
        exact absurd hdirective (by decide)

/-! ## The list of the addresses -/

/-- What `cJSON_Parse` makes of a list that is written, and of any text: no string that is read is longer
than what stands for it. -/
structure ReadsArrays (cJSONArray : Bytes → Option (List Bytes)) (ips : List Bytes) : Prop where
  printed : cJSONArray (ipList ips) = some ips ↔ ∀ ip ∈ ips, Without [34, 92] ip
  length_le {text : Bytes} {read : List Bytes} (h : cJSONArray text = some read) :
    (ipList read).length ≤ text.length

/-- The list that `save_config` writes is read back in full. -/
def ListKept (env : LoadEnv) (s : ArwsConfig) : Prop :=
  ∀ s₀ : ArwsConfig, (arwsConfigLoad env (saveConfig s) s₀).config.maintenanceIps = s.maintenanceIps

/-- The strings of an array as the table keeps them. -/
def storedIps (ips : List Bytes) : List Bytes :=
  (ips.take maxMaintenanceIps).map fun ip => (cstr ip).take 63

theorem length_intercalate (parts : List Bytes) :
    ([44].intercalate parts).length = (parts.map fun part => part.length + 1).sum - 1 := by
  induction parts with
  | nil => simp
  | cons part parts ih =>
    cases parts with
    | nil => simp
    | cons next parts =>
      rw [List.intercalate_cons_cons, List.length_append, List.length_append, ih]
      simp only [List.map_cons, List.sum_cons, List.length_singleton]
      omega

theorem length_ipList (ips : List Bytes) :
    (ipList ips).length = 2 + ((ips.map fun ip => ip.length + 3).sum - 1) := by
  have hparts : (ips.map fun ip => 34 :: ip ++ [34]).map (fun part : Bytes => part.length + 1) =
      ips.map fun ip => ip.length + 3 := by
    rw [List.map_map]
    exact List.map_congr_left fun ip _ => by simp
  rw [ipList, List.length_append, List.length_cons, length_intercalate, hparts, List.length_singleton]
  omega

/-- **A table keeps no more than was read**, and the same only if that is all. -/
theorem storedIps_le (ips : List Bytes) :
    ((storedIps ips).map fun ip => ip.length + 3).sum ≤ (ips.map fun ip => ip.length + 3).sum ∧
      (((storedIps ips).map fun ip => ip.length + 3).sum = (ips.map fun ip => ip.length + 3).sum →
        storedIps ips = ips) := by
  rw [storedIps]
  generalize maxMaintenanceIps = n
  induction ips generalizing n with
  | nil => simp
  | cons ip ips ih =>
    cases n with
    | zero =>
      simp only [List.take_zero, List.map_nil, List.sum_nil, List.map_cons, List.sum_cons]
      exact ⟨Nat.zero_le _, fun hsum => by omega⟩
    | succ n =>
      obtain ⟨hle, heq⟩ := ih n
      have hbegins : (cstr ip).take 63 <+: ip := (List.take_prefix _ _).trans (cstr_isPrefix ip)
      have hlen := hbegins.length_le
      simp only [List.take_succ_cons, List.map_cons, List.sum_cons] at hle heq ⊢
      refine ⟨by omega, fun hsum => ?_⟩
      rw [hbegins.eq_of_length (by omega), heq (by omega)]

/-- **A list that was read and is what was written** was read from no shorter text. -/
theorem eq_of_storedIps {ips read : List Bytes} (h : storedIps read = ips) :
    (ipList ips).length ≤ (ipList read).length ∧
      ((ipList read).length ≤ (ipList ips).length → read = ips) := by
  subst h
  obtain ⟨hle, heq⟩ := storedIps_le read
  rw [length_ipList, length_ipList]
  refine ⟨by omega, fun hlen => (heq ?_).symm⟩
  cases read with
  | nil => rfl
  | cons ip read =>
    -- neither list is empty
    have hstored : 3 ≤ ((storedIps (ip :: read)).map fun ip => ip.length + 3).sum := by
      have hcons : storedIps (ip :: read) = (cstr ip).take 63 ::
          (read.take (maxMaintenanceIps - 1)).map fun ip => (cstr ip).take 63 := rfl
      rw [hcons, List.map_cons, List.sum_cons]
      omega
    omega

theorem mem_ipList {c : UInt8} {ips : List Bytes} {ip : Bytes} (hip : ip ∈ ips) (hc : c ∈ ip) :
    c ∈ ipList ips := by
  have hmem : ∀ parts : List Bytes, ∀ part ∈ parts, c ∈ part → c ∈ [44].intercalate parts := by
    intro parts
    induction parts with
    | nil => simp
    | cons part parts ih =>
      intro part' hpart hc
      cases parts with
      | nil =>
        rw [List.mem_singleton.1 hpart] at hc
        rwa [List.intercalate_singleton]
      | cons next parts =>
        rw [List.intercalate_cons_cons, List.mem_append, List.mem_append]
        obtain rfl | hpart := List.mem_cons.1 hpart
        · exact Or.inl (Or.inl hc)
        · exact Or.inr (ih part' hpart hc)
  rw [ipList]
  refine List.mem_append_left _ (List.mem_cons_of_mem _ (hmem _ _ (List.mem_map_of_mem hip) ?_))
  simp [hc]

/-! ## The other lines -/

/-- A piece that leaves the addresses as they are. -/
def KeepsIps (env : LoadEnv) (piece : Bytes) : Prop :=
  ∀ st : Loading, (st.readLine env piece).config.maintenanceIps = st.config.maintenanceIps

variable {env : LoadEnv}

theorem maintenanceIps_readLines {pieces : List Bytes} (h : ∀ piece ∈ pieces, KeepsIps env piece)
    (st : Loading) :
    (st.readLines env pieces).config.maintenanceIps = st.config.maintenanceIps := by
  induction pieces generalizing st with
  | nil => rfl
  | cons piece pieces ih =>
    exact (ih (fun p hp => h p (List.mem_cons_of_mem _ hp)) _).trans (h piece List.mem_cons_self st)

/-- What a piece is, if it is read as a setting. -/
theorem text_of_setting {piece name value : Bytes} (h : parseLine piece = .setting name value) :
    ∃ front back, trim (cstr piece) = front ++ 61 :: back ∧ name = trim front ∧ value = trim back ∧
      (trim (cstr piece)).head? ≠ some 34 := by
  rw [parseLine] at h
  split at h
  · cases h
  · rename_i rest htext
    cases hclose : strchr 34 rest with
    | none => simp [hclose] at h
    | some close => cases heq : strchr 61 (rest.drop (close + 1)) <;> simp [hclose, heq] at h
  · rename_i c rest hc htext
    split_ifs at h with h35
    cases heq : strchr 61 (c :: rest) with
    | none => simp [heq] at h
    | some eq =>
      rw [heq] at h
      obtain ⟨rfl, rfl⟩ := ConfigLine.setting.inj h
      refine ⟨_, _, htext.trans (strchr_eq_some heq).1, rfl, rfl, ?_⟩
      rw [htext]
      exact fun hquote => hc (Option.some.inj hquote)

theorem keepsIps_of_setting {piece : Bytes} (h : ∀ name value, parseLine piece = .setting name value →
    strcaseeq name (ascii "maintenance_ips") = false) : KeepsIps env piece := by
  intro st
  have hstep := (maintenanceIpsSetting env).get_read st (parseLine piece)
  refine hstep.trans ?_
  cases hparse : parseLine piece with
  | nothing => rfl
  | keyed key val => rfl
  | setting name value => exact if_neg (Bool.eq_false_iff.1 (h name value hparse))

/-- A line with a key. -/
theorem keepsIps_of_quote {piece : Bytes} (h : (trim (cstr piece)).head? = some 34) :
    KeepsIps env piece := by
  refine keepsIps_of_setting fun name value hparse => ?_
  obtain ⟨front, back, -, -, -, hhead⟩ := text_of_setting hparse
  exact absurd h hhead

/-- A piece that is shorter than the name. -/
theorem keepsIps_of_length {piece : Bytes} (h : piece.length ≤ 15) : KeepsIps env piece := by
  refine keepsIps_of_setting fun name value hparse => ?_
  obtain ⟨front, back, htext, rfl, -, -⟩ := text_of_setting hparse
  rw [Bool.eq_false_iff]
  intro hname
  have hlen := length_eq_of_strcaseeq hname
  have hword : (ascii "maintenance_ips").length = 15 := rfl
  have hfront : (trim front).length ≤ front.length := (strip_isInfix front).length_le
  have hpiece : (trim (cstr piece)).length ≤ piece.length :=
    ((strip_isInfix _).trans (cstr_isPrefix piece).isInfix).length_le
  rw [htext, List.length_append, List.length_cons] at hpiece
  omega

theorem keepsIps_of_nothing {piece : Bytes} (h : parseLine piece = .nothing) : KeepsIps env piece :=
  keepsIps_of_setting fun name value hparse => by
    rw [h] at hparse
    cases hparse

/-- **A setting of another name**, with what is left of its line. -/
theorem keepsIps_settingLine {name val : Bytes} (hline : SettingLine (name ++ 61 :: val))
    (hname : IsName name) (hlen : name.length ≤ 510) (hval : (0 : UInt8) ∉ val)
    (hips : strcaseeq (trim name) (ascii "maintenance_ips") = false) :
    ∀ piece ∈ fgetsLines (name ++ 61 :: val ++ [10]), KeepsIps env piece := by
  intro piece hpiece
  have hsplit : fgetsLines (name ++ 61 :: val ++ [10]) = firstPiece (name ++ 61 :: val) ::
      fgetsLines ((name ++ 61 :: val ++ [10]).drop 511) := pieces_line hline.lf_notMem
  rw [hsplit, List.mem_cons] at hpiece
  obtain rfl | hpiece := hpiece
  · refine keepsIps_of_setting fun n v hparse => ?_
    rw [parseLine_firstPiece hname hlen hval] at hparse
    obtain ⟨rfl, -⟩ := ConfigLine.setting.inj hparse
    exact hips
  · exact keepsIps_of_nothing (hline.rest piece hpiece)

theorem keepsIps_linesAround {s : ArwsConfig} (h : Stored s) :
    ∀ line ∈ s.linesBefore ++ s.linesBehind, ∀ piece ∈ fgetsLines (line ++ [10]), KeepsIps env piece := by
  have hdecimal : ∀ n, (0 : UInt8) ∉ printDecimal n := fun n => printDecimal_without n 0 (by simp)
  intro line hline
  have hsetting := h.linesAround line hline
  rw [ArwsConfig.linesBefore, ArwsConfig.linesBehind, modeLine] at hline
  simp only [List.mem_append, List.mem_cons, List.not_mem_nil, or_false, List.mem_ite_nil_right] at hline
  obtain ((rfl | ⟨-, rfl⟩) | ⟨-, rfl⟩) | rfl | rfl := hline
  · by_cases hmode : s.cachedMode = some .production
    · rw [if_pos hmode] at hsetting ⊢
      exact @keepsIps_settingLine env (ascii "mode") (ascii "production") hsetting (by decide) (by decide)
        (by decide) (by decide)
    · rw [if_neg hmode] at hsetting ⊢
      exact @keepsIps_settingLine env (ascii "mode") (ascii "test") hsetting (by decide) (by decide)
        (by decide) (by decide)
  · exact keepsIps_settingLine hsetting (by decide) (by decide) (hdecimal _) (by decide)
  · exact keepsIps_settingLine hsetting (by decide) (by decide) (h.configBind.1 0 (by simp)) (by decide)
  · exact keepsIps_settingLine hsetting (by decide) (by decide) (h.globalMode.1 0 (by simp)) (by decide)
  · exact keepsIps_settingLine hsetting (by decide) (by decide) (hdecimal _) (by decide)

/-- **A line with a key** that is not much longer than the buffer. -/
theorem keepsIps_keyedLine {host path val : Bytes} (hlf : (10 : UInt8) ∉ keyedLine host path val)
    (hlen : (keyedLine host path val).length ≤ 525) :
    ∀ piece ∈ fgetsLines (keyedLine host path val ++ [10]), KeepsIps env piece := by
  intro piece hpiece
  have hsplit : fgetsLines (keyedLine host path val ++ [10]) = firstPiece (keyedLine host path val) ::
      fgetsLines ((keyedLine host path val ++ [10]).drop 511) := pieces_line hlf
  rw [hsplit, List.mem_cons] at hpiece
  obtain rfl | hpiece := hpiece
  · refine keepsIps_of_quote ?_
    obtain ⟨rest, hrest⟩ : ∃ rest, firstPiece (keyedLine host path val) = [34] ++ rest := ⟨_, rfl⟩
    rw [hrest, cstr_append (by decide), trim_append (by simp) (by decide)]
    rfl
  · refine keepsIps_of_length ((infix_of_mem_pieces hpiece).length_le.trans ?_)
    rw [List.length_drop, List.length_append, List.length_singleton]
    omega

theorem keepsIps_overrides {s : ArwsConfig} (h : Stored s)
    (hmodes : ∀ o ∈ s.overrides, (10 : UInt8) ∉ o.mode) :
    ∀ line ∈ s.overrides.filterMap (·.line?), ∀ piece ∈ fgetsLines (line ++ [10]), KeepsIps env piece := by
  intro line hline
  obtain ⟨o, ho, hsome⟩ := List.mem_filterMap.1 hline
  obtain ⟨hkey, -, hmode⟩ := h.overrides o ho
  have hbegins := keyLength_le hkey
  have hflag : (ascii " no-cache").length = 9 := rfl
  have hword : (ascii "no-cache").length = 8 := rfl
  rw [ModeOverride.line?] at hsome
  split_ifs at hsome with hempty hcache hcache
  · cases hsome
    have hval : (10 : UInt8) ∉ o.mode ++ ascii " no-cache" := by
      rw [List.mem_append, not_or]
      exact ⟨hmodes o ho, by decide⟩
    refine keepsIps_keyedLine (lf_notMem_keyedLine hkey hval) ?_
    rw [length_keyedLine, List.length_append, hflag]
    omega
  · cases hsome
    rw [List.append_nil]
    refine keepsIps_keyedLine (lf_notMem_keyedLine hkey (hmodes o ho)) ?_
    rw [length_keyedLine]
    omega
  · cases hsome
    refine keepsIps_keyedLine (lf_notMem_keyedLine hkey (by decide)) ?_
    rw [length_keyedLine, hword]
    omega

theorem keepsIps_proxyLine {r : ProxyRouteEntry} (h : StoredRoute r) :
    ∀ piece ∈ fgetsLines (r.proxyLine ++ [10]), KeepsIps env piece := by
  have hkey := keyLength_le h.key
  have hlen := h.target_le
  refine keepsIps_keyedLine (lf_notMem_keyedLine h.key (h.target_without 10 (by simp))) ?_
  rw [length_keyedLine]
  omega

theorem keepsIps_streamLine {r : ProxyRouteEntry} (h : StoredRoute r) :
    ∀ piece ∈ fgetsLines (r.streamLine ++ [10]), KeepsIps env piece := by
  have hkey := keyLength_le h.key
  have hlen := h.target_le
  have hword : (ascii "stream ").length = 7 := rfl
  have hval : (10 : UInt8) ∉ ascii "stream " ++ r.targetUrl := by
    rw [List.mem_append, not_or]
    exact ⟨by decide, h.target_without 10 (by simp)⟩
  refine keepsIps_keyedLine (lf_notMem_keyedLine h.key hval) ?_
  rw [length_keyedLine, List.length_append, hword]
  omega

theorem keepsIps_unlines {lines : List Bytes}
    (h : ∀ line ∈ lines, ∀ piece ∈ fgetsLines (line ++ [10]), KeepsIps env piece) (st : Loading) :
    (st.readLines env (fgetsLines (unlines 10 lines))).config.maintenanceIps =
      st.config.maintenanceIps := by
  refine maintenanceIps_readLines (fun piece hpiece => ?_) st
  rw [fgetsLines_unlines] at hpiece
  obtain ⟨line, hline, hpiece⟩ := List.mem_flatMap.1 hpiece
  exact h line hline piece hpiece

/-- **The addresses of a written file** are those of their line. -/
theorem maintenanceIps_load {s : ArwsConfig} (h : Stored s)
    (hmodes : ∀ o ∈ s.overrides, (10 : UInt8) ∉ o.mode) (s₀ : ArwsConfig) :
    ∃ st : Loading, st.config.maintenanceIps = [] ∧
      (arwsConfigLoad env (saveConfig s) s₀).config.maintenanceIps =
        if s.maintenanceIps = [] then []
        else (st.readLines env (fgetsLines (ipsLine s ++ [10]))).config.maintenanceIps := by
  have happend : ∀ a b : List Bytes, fgetsLines (unlines 10 (a ++ b)) =
      fgetsLines (unlines 10 a) ++ fgetsLines (unlines 10 b) := fun a b => pieces_unlines_append a b
  have hproxy : ∀ line ∈ s.proxyRoutes.map (·.proxyLine), ∀ piece ∈ fgetsLines (line ++ [10]),
      KeepsIps env piece := by
    intro line hline
    obtain ⟨r, hr, rfl⟩ := List.mem_map.1 hline
    exact keepsIps_proxyLine (h.proxyRoutes r hr)
  have hstream : ∀ line ∈ s.streamRoutes.map (·.streamLine), ∀ piece ∈ fgetsLines (line ++ [10]),
      KeepsIps env piece := by
    intro line hline
    obtain ⟨r, hr, rfl⟩ := List.mem_map.1 hline
    exact keepsIps_streamLine (h.streamRoutes r hr)
  have hbehind : ∀ line ∈ s.linesBehind, ∀ piece ∈ fgetsLines (line ++ [10]), KeepsIps env piece :=
    fun line hline => keepsIps_linesAround h line (List.mem_append_right _ hline)
  refine ⟨(⟨s₀.reset, []⟩ : Loading).readLines env (fgetsLines (unlines 10 s.linesBefore)),
    keepsIps_unlines (fun line hline => keepsIps_linesAround h line (List.mem_append_left _ hline)) _, ?_⟩
  rw [load_saveConfig, keepsIps_unlines hstream, keepsIps_unlines hproxy,
    keepsIps_unlines (keepsIps_overrides h hmodes), settingLines_eq, happend, happend, readLines_append,
    readLines_append, keepsIps_unlines hbehind]
  by_cases hnone : s.maintenanceIps = []
  · rw [if_pos hnone, if_neg (not_not.2 hnone)]
    exact keepsIps_unlines (fun line hline => keepsIps_linesAround h line (List.mem_append_left _ hline)) _
  · have hone : unlines 10 [ipsLine s] = ipsLine s ++ [10] := by simp [unlines]
    rw [if_neg hnone, if_pos hnone, ← hone]
    rfl

/-! ## The line of the addresses -/

/-- What a piece that is read as a list says is shorter than the piece by the name. -/
theorem length_value_le {piece name value : Bytes} (h : parseLine piece = .setting name value)
    (hname : strcaseeq name (ascii "maintenance_ips") = true) : value.length + 16 ≤ piece.length := by
  obtain ⟨front, back, htext, rfl, rfl, -⟩ := text_of_setting h
  have hlen := length_eq_of_strcaseeq hname
  have hword : (ascii "maintenance_ips").length = 15 := rfl
  have hfront : (trim front).length ≤ front.length := (strip_isInfix front).length_le
  have hback : (trim back).length ≤ back.length := (strip_isInfix back).length_le
  have hpiece : (trim (cstr piece)).length ≤ piece.length :=
    ((strip_isInfix _).trans (cstr_isPrefix piece).isInfix).length_le
  rw [htext, List.length_append, List.length_cons] at hpiece
  omega

/-- The first piece of the line says no more than what it holds of the list. -/
theorem length_first_le {list name value : Bytes} (hzero : (0 : UInt8) ∉ list)
    (h : parseLine (firstPiece (ascii "maintenance_ips " ++ 61 :: 32 :: list)) = .setting name value) :
    value.length ≤ list.length ∧ value.length ≤ 493 := by
  have hval : (0 : UInt8) ∉ 32 :: list := by simpa using hzero
  rw [@parseLine_firstPiece (ascii "maintenance_ips ") _ (by decide) (by decide) hval] at h
  obtain ⟨-, rfl⟩ := ConfigLine.setting.inj h
  have hroom : 510 - (ascii "maintenance_ips ").length = 494 := rfl
  have htrim : trim ((32 :: list ++ [10]).take 494) = trim ((list ++ [10]).take 493) := by
    rw [List.cons_append, List.take_succ_cons, trim, strip_cons rfl rfl]
    rfl
  have hcut : (trim ((list ++ [10]).take 493)).length ≤ ((list ++ [10]).take 493).length :=
    (strip_isInfix _).length_le
  rw [hroom, htrim]
  by_cases hfits : list.length ≤ 492
  · have hall : (list ++ [10]).take 493 = list ++ [10] := by
      refine List.take_of_length_le ?_
      rw [List.length_append, List.length_singleton]
      omega
    have hle : (trim list).length ≤ list.length := (strip_isInfix list).length_le
    rw [hall, trim_append_lf]
    omega
  · rw [List.length_take] at hcut
    omega

/-- The pieces of a line of addresses, or of what a line end leaves of it. -/
theorem length_value_of_line {list piece name value : Bytes} (hlf : (10 : UInt8) ∉ list)
    (hzero : (0 : UInt8) ∉ list)
    (hpiece : piece ∈ fgetsLines (ascii "maintenance_ips " ++ 61 :: 32 :: list ++ [10]))
    (h : parseLine piece = .setting name value) (hname : strcaseeq name (ascii "maintenance_ips") = true) :
    value.length ≤ list.length ∧ (493 < list.length → value.length < list.length) := by
  have hword : (ascii "maintenance_ips ").length = 16 := rfl
  have hline : (10 : UInt8) ∉ ascii "maintenance_ips " ++ 61 :: 32 :: list := by
    have hnone : (10 : UInt8) ∉ ascii "maintenance_ips " := by decide
    simp [hnone, hlf]
  have hsplit : fgetsLines (ascii "maintenance_ips " ++ 61 :: 32 :: list ++ [10]) =
      firstPiece (ascii "maintenance_ips " ++ 61 :: 32 :: list) ::
        fgetsLines ((ascii "maintenance_ips " ++ 61 :: 32 :: list ++ [10]).drop 511) := pieces_line hline
  rw [hsplit, List.mem_cons] at hpiece
  obtain rfl | hpiece := hpiece
  · have hfirst := length_first_le hzero h
    omega
  · -- what is left of the line is shorter by more than the name
    have hshort := length_value_le h hname
    have hrest := (infix_of_mem_pieces hpiece).length_le
    rw [List.length_drop, List.length_append, List.length_append, List.length_cons, List.length_cons, hword,
      List.length_singleton] at hrest
    omega

/-- **No piece of a line that does not fit**, or has a line end in it, says as much as the list. -/
theorem length_value_lt {list piece name value : Bytes} (hzero : (0 : UInt8) ∉ list)
    (hcut : (10 : UInt8) ∈ list ∨ 493 < list.length)
    (hpiece : piece ∈ fgetsLines (ascii "maintenance_ips " ++ 61 :: 32 :: list ++ [10]))
    (h : parseLine piece = .setting name value) (hname : strcaseeq name (ascii "maintenance_ips") = true) :
    value.length < list.length := by
  by_cases hlf : (10 : UInt8) ∈ list
  · obtain ⟨i, hi⟩ : ∃ i, strchr 10 list = some i := by
      cases hnone : strchr 10 list with
      | none => exact absurd hlf (strchr_eq_none_iff.1 hnone)
      | some i => exact ⟨i, rfl⟩
    obtain ⟨hsplit, hfront⟩ := strchr_eq_some hi
    generalize list.take i = front at hsplit hfront
    generalize list.drop (i + 1) = back at hsplit
    subst hsplit
    have hfront0 : (0 : UInt8) ∉ front := fun hmem => hzero (List.mem_append_left _ hmem)
    have hline : fgetsLines (ascii "maintenance_ips " ++ 61 :: 32 :: (front ++ 10 :: back) ++ [10]) =
        fgetsLines (ascii "maintenance_ips " ++ 61 :: 32 :: front ++ [10]) ++
          fgetsLines (back ++ [10]) := by
      have hassoc : ascii "maintenance_ips " ++ 61 :: 32 :: (front ++ 10 :: back) ++ [10] =
          (ascii "maintenance_ips " ++ 61 :: 32 :: front) ++ 10 :: (back ++ [10]) := by simp
      rw [hassoc]
      exact pieces_append _ _
    rw [List.length_append, List.length_cons]
    rw [hline, List.mem_append] at hpiece
    obtain hpiece | hpiece := hpiece
    · have hle := (length_value_of_line hfront hfront0 hpiece h hname).1
      omega
    · have hshort := length_value_le h hname
      have hrest := (infix_of_mem_pieces hpiece).length_le
      rw [List.length_append, List.length_singleton] at hrest
      omega
  · exact (length_value_of_line hlf hzero hpiece h hname).2 (hcut.resolve_left hlf)

/-- **The addresses behind some pieces** are those from before them, or an array that one of them says. -/
theorem maintenanceIps_cases (st : Loading) (pieces : List Bytes) :
    (st.readLines env pieces).config.maintenanceIps = st.config.maintenanceIps ∨
      ∃ piece ∈ pieces, ∃ name value read, parseLine piece = .setting name value ∧
        strcaseeq name (ascii "maintenance_ips") = true ∧ env.cJSONArray value = some read ∧
        (st.readLines env pieces).config.maintenanceIps = storedIps read := by
  induction pieces generalizing st with
  | nil => exact Or.inl rfl
  | cons piece pieces ih =>
    rw [readLines_cons]
    obtain hsame | ⟨p, hp, hread⟩ := ih (st.readLine env piece)
    · by_cases hkeep : KeepsIps env piece
      · exact Or.inl (hsame.trans (hkeep st))
      · have hstep : (st.readLine env piece).config.maintenanceIps =
            (maintenanceIpsSetting env).step st.config.maintenanceIps (parseLine piece) :=
          (maintenanceIpsSetting env).get_read st (parseLine piece)
        cases hparse : parseLine piece with
        | nothing => exact absurd (keepsIps_of_nothing hparse) hkeep
        | keyed key val => exact Or.inl (hsame.trans (by rw [hstep, hparse]; rfl))
        | setting name value =>
          by_cases hname : strcaseeq name (ascii "maintenance_ips") = true
          · have hupdate : (st.readLine env piece).config.maintenanceIps =
                (maintenanceIpsSetting env).update value st.config.maintenanceIps := by
              rw [hstep, hparse]
              exact if_pos hname
            cases hjson : env.cJSONArray value with
            | none =>
              refine Or.inl (hsame.trans (hupdate.trans ?_))
              simp only [maintenanceIpsSetting, hjson]
            | some read =>
              refine Or.inr ⟨piece, List.mem_cons_self, name, value, read, hparse, hname, hjson,
                hsame.trans (hupdate.trans ?_)⟩
              simp only [maintenanceIpsSetting, hjson, storedIps]
          · exact Or.inl (hsame.trans (by rw [hstep, hparse]; exact if_neg hname))
    · exact Or.inr ⟨p, List.mem_cons_of_mem _ hp, hread⟩

/-- The line that fits is read as the list. -/
theorem readLines_ipsLine {s : ArwsConfig} (h : Stored s) (hlf : (10 : UInt8) ∉ ipList s.maintenanceIps)
    (hfits : (ipsLine s).length ≤ 511) (st : Loading) :
    (st.readLines env (fgetsLines (ipsLine s ++ [10]))).config.maintenanceIps =
      match env.cJSONArray (ipList s.maintenanceIps) with
      | none => st.config.maintenanceIps
      | some read => storedIps read := by
  have hword : (ascii "maintenance_ips ").length = 16 := rfl
  have hzero : (0 : UInt8) ∉ 32 :: ipList s.maintenanceIps := by
    simpa using ipList_without (fun ip hip => (h.maintenanceIps ip hip).1) (by decide)
  have hline : (10 : UInt8) ∉ ipsLine s := by
    have hnone : (10 : UInt8) ∉ ascii "maintenance_ips " := by decide
    simp [ipsLine, hnone, hlf]
  have hsplit : fgetsLines (ipsLine s ++ [10]) = firstPiece (ipsLine s) ::
      fgetsLines ((ipsLine s ++ [10]).drop 511) := pieces_line hline
  have hrest : ∀ piece ∈ fgetsLines ((ipsLine s ++ [10]).drop 511), KeepsIps env piece :=
    fun piece hpiece => keepsIps_of_nothing (restSaysNothing_of_length_le hfits piece hpiece)
  have hroom : (32 :: ipList s.maintenanceIps).length ≤ 510 - (ascii "maintenance_ips ").length := by
    simp only [ipsLine, List.length_append, List.length_cons, hword] at hfits ⊢
    omega
  have hparse := @parseLine_firstPiece (ascii "maintenance_ips ") _ (by decide) (by decide) hzero
  rw [trim_ipList hroom] at hparse
  have hstep : (st.readLine env (firstPiece (ipsLine s))).config.maintenanceIps =
      (maintenanceIpsSetting env).step st.config.maintenanceIps (parseLine (firstPiece (ipsLine s))) :=
    (maintenanceIpsSetting env).get_read st _
  rw [hsplit, readLines_cons, maintenanceIps_readLines hrest, hstep, ipsLine, hparse]
  rfl

/-- **The list is read back, if and only if** its line fits the buffer, and no address has a line end, a
quote or a backslash. -/
theorem listKept_iff {s : ArwsConfig} (h : Stored s) (hmodes : ∀ o ∈ s.overrides, (10 : UInt8) ∉ o.mode)
    (hjson : ReadsArrays env.cJSONArray s.maintenanceIps) :
    ListKept env s ↔ s.maintenanceIps = [] ∨
      (ipsLine s).length ≤ 511 ∧ ∀ ip ∈ s.maintenanceIps, Without [10, 34, 92] ip := by
  have hzero : (0 : UInt8) ∉ ipList s.maintenanceIps :=
    ipList_without (fun ip hip => (h.maintenanceIps ip hip).1) (by decide)
  have hword : (ascii "maintenance_ips ").length = 16 := rfl
  have hlen : (ipsLine s).length = (ipList s.maintenanceIps).length + 18 := by
    rw [ipsLine, List.length_append, List.length_cons, List.length_cons, hword]
    omega
  have hsame : storedIps s.maintenanceIps = s.maintenanceIps := by
    rw [storedIps, List.take_of_length_le h.maintenanceIps_le, List.map_congr_left (g := id), List.map_id]
    intro ip hip
    obtain ⟨hip0, hip63⟩ := h.maintenanceIps ip hip
    rw [cstr_eq_self hip0, List.take_of_length_le hip63]
    rfl
  by_cases hnone : s.maintenanceIps = []
  · refine iff_of_true (fun s₀ => ?_) (Or.inl hnone)
    obtain ⟨st, -, hload⟩ := @maintenanceIps_load env s h hmodes s₀
    rw [hload, if_pos hnone, hnone]
  · rw [or_iff_right hnone]
    constructor
    · intro hkept
      obtain ⟨st, hst, hload⟩ := @maintenanceIps_load env s h hmodes .initial
      rw [if_neg hnone, hkept] at hload
      have hread : ∃ piece ∈ fgetsLines (ipsLine s ++ [10]), ∃ name value read,
          parseLine piece = .setting name value ∧ strcaseeq name (ascii "maintenance_ips") = true ∧
            env.cJSONArray value = some read ∧ storedIps read = s.maintenanceIps := by
        obtain hsame | ⟨piece, hpiece, name, value, read, hparse, hname, hvalue, heq⟩ :=
          @maintenanceIps_cases env st (fgetsLines (ipsLine s ++ [10]))
        · rw [← hload, hst] at hsame
          exact absurd hsame hnone
        · exact ⟨piece, hpiece, name, value, read, hparse, hname, hvalue, heq.symm.trans hload.symm⟩
      obtain ⟨piece, hpiece, name, value, read, hparse, hname, hvalue, hstored⟩ := hread
      have hle := (eq_of_storedIps hstored).1.trans (hjson.length_le hvalue)
      have hwhole : ¬ ((10 : UInt8) ∈ ipList s.maintenanceIps ∨ 493 < (ipList s.maintenanceIps).length) :=
        fun hcut => absurd hle (Nat.not_le.2 (length_value_lt hzero hcut hpiece hparse hname))
      obtain ⟨hlf, hfits⟩ := not_or.1 hwhole
      have hfits : (ipsLine s).length ≤ 511 := by omega
      rw [readLines_ipsLine h hlf hfits] at hload
      cases hlist : env.cJSONArray (ipList s.maintenanceIps) with
      | none =>
        rw [hlist] at hload
        exact absurd (hload.trans hst) hnone
      | some read' =>
        rw [hlist] at hload
        have hall := (eq_of_storedIps hload.symm).2 (hjson.length_le hlist)
        rw [hall] at hlist
        have hplain := hjson.printed.1 hlist
        refine ⟨hfits, fun ip hip c hc hmem => ?_⟩
        simp only [List.mem_cons, List.not_mem_nil, or_false] at hc
        obtain rfl | rfl | rfl := hc
        · exact hlf (mem_ipList hip hmem)
        · exact hplain ip hip 34 (by simp) hmem
        · exact hplain ip hip 92 (by simp) hmem
    · rintro ⟨hfits, hplain⟩ s₀
      obtain ⟨st, -, hload⟩ := @maintenanceIps_load env s h hmodes s₀
      have hlf : (10 : UInt8) ∉ ipList s.maintenanceIps :=
        ipList_without (fun ip hip => hplain ip hip 10 (by simp)) (by decide)
      have hlist := hjson.printed.2 fun ip hip c hc => hplain ip hip c (List.mem_cons_of_mem _ hc)
      rw [hload, if_neg hnone, readLines_ipsLine h hlf hfits, hlist]
      exact hsame

/-- **Lines are read as lines, and the list as it was written**, exactly if no part of a long line is a
directive, and the list is empty or its line fits the buffer and is printed as JSON would be. -/
theorem readByLine_listKept_iff (file : Bytes) {s : ArwsConfig} (h : Stored s)
    (hmodes : ∀ o ∈ s.overrides, (10 : UInt8) ∉ o.mode)
    (hjson : ReadsArrays env.cJSONArray s.maintenanceIps) :
    (ReadByLine file ↔ ∀ line ∈ fileLines file, 511 < line.length → ∀ k, Spelled (linePiece line k) →
      OnlyBlanksAround line k) ∧
      (ListKept env s ↔ s.maintenanceIps = [] ∨
        (ipsLine s).length ≤ 511 ∧ ∀ ip ∈ s.maintenanceIps, Without [10, 34, 92] ip) :=
  ⟨readByLine_iff file, listKept_iff h hmodes hjson⟩

private def oneAddress : ArwsConfig :=
  { ArwsConfig.initial.reset with maintenanceIps := [ascii "10.0.0.1"] }

private theorem stored_oneAddress : Stored oneAddress :=
  { stored_reset .initial with
    maintenanceIps := by
      intro ip hip
      rw [List.mem_singleton.1 hip]
      decide
    maintenanceIps_le := by decide }

/-- `cJSON_Parse`, as far as the list of one address goes. -/
private def parseAddress (text : Bytes) : Option (List Bytes) :=
  if text = ipList [ascii "10.0.0.1"] then some [ascii "10.0.0.1"] else none

private theorem readsArrays_parseAddress : ReadsArrays parseAddress [ascii "10.0.0.1"] where
  printed := iff_of_true (if_pos rfl) (by decide)
  length_le {text read} h := by
    rw [parseAddress] at h
    split_ifs at h with htext
    cases h
    rw [htext]

theorem readByLine_listKept_iff_oneAddress :
    (ReadByLine (ascii "mode=test\n") ↔ ∀ line ∈ fileLines (ascii "mode=test\n"), 511 < line.length →
      ∀ k, Spelled (linePiece line k) → OnlyBlanksAround line k) ∧
      (ListKept ⟨parseAddress, fun _ => []⟩ oneAddress ↔ oneAddress.maintenanceIps = [] ∨
        (ipsLine oneAddress).length ≤ 511 ∧ ∀ ip ∈ oneAddress.maintenanceIps, Without [10, 34, 92] ip) :=
  @readByLine_listKept_iff ⟨parseAddress, fun _ => []⟩ (ascii "mode=test\n") oneAddress stored_oneAddress
    (by simp [oneAddress, ArwsConfig.reset]) readsArrays_parseAddress

/-- A comment that fills the buffer, and what follows it in its line. -/
private def longComment : Bytes := 35 :: List.replicate 510 120 ++ ascii "mode=test"

/-- **A part of a comment is a directive**: the mode is set by a line that begins with `#`. -/
theorem not_readByLine_listKept : ¬ ∀ (env : LoadEnv) (file : Bytes) (s : ArwsConfig), Stored s →
    (∀ o ∈ s.overrides, (10 : UInt8) ∉ o.mode) → ReadsArrays env.cJSONArray s.maintenanceIps →
      ReadByLine file ∧ ListKept env s := by
  intro h
  have hread := (h ⟨parseAddress, fun _ => []⟩ longComment oneAddress stored_oneAddress
    (by simp [oneAddress, ArwsConfig.reset]) readsArrays_parseAddress).1
  have hline : longComment ∈ fileLines longComment := by decide +kernel
  have hdirective : (parseLine (linePiece longComment 1)).isDirective = true := by decide +kernel
  have hfirst : (35 : UInt8) ∈ longComment.take (511 * 1) := by decide +kernel
  have hblank := (hread.parts longComment hline 1 hdirective).1 35 hfirst
  cases hblank

end Config
end Arws
