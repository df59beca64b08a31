import Arws.Config.OperatorEdits
import Arws.Config.WrittenLines

/-!
# The lines of a file

`arws_config_load` reads a file with `fgets` into a buffer of 512 bytes, so what it takes apart are pieces
of lines.  No piece has parts of two lines.

* `settingsOf_eq_flatMap` — what a file sets is what its lines set, each on its own.
* `load_eq_foldl` — the tables and the calls come from that, one after the other.
-/

set_option autoImplicit false

namespace Arws
namespace Config

open CString TextFile

/-- The lines of a file.  What is behind its last line end is one more line, which may be empty. -/
def fileLines (file : Bytes) : List Bytes := file.splitOn 10

/-- A file is a line, or a line in front of a file. -/
theorem fileLines_rule {P : Bytes → List Bytes → Prop} (hone : ∀ line, (10 : UInt8) ∉ line → P line [line])
    (hcons : ∀ line file lines, (10 : UInt8) ∉ line → P file lines →
      P (line ++ 10 :: file) (line :: lines)) (file : Bytes) : P file (fileLines file) := by
  induction hn : file.length using Nat.strongRecOn generalizing file with
  | _ n ih =>
    subst hn
    rw [fileLines]
    cases hlf : strchr 10 file with
    | none =>
      have hnone := strchr_eq_none_iff.1 hlf
      rw [List.splitOn_eq_singleton hnone]
      exact hone file hnone
    | some i =>
      obtain ⟨hsplit, hfirst⟩ := strchr_eq_some hlf
      generalize file.take i = line at hsplit hfirst
      generalize file.drop (i + 1) = rest at hsplit
      subst hsplit
      rw [List.splitOn_append_cons_self_of_not_mem hfirst]
      refine hcons line rest _ hfirst (ih rest.length ?_ rest rfl)
      rw [List.length_append, List.length_cons]
      omega

theorem lf_notMem_of_mem_fileLines {file line : Bytes} (h : line ∈ fileLines file) : (10 : UInt8) ∉ line := by
  refine fileLines_rule (P := fun _ lines => ∀ line ∈ lines, (10 : UInt8) ∉ line) ?_ ?_ file line h
  · intro line hline l hl
    rwa [List.mem_singleton.1 hl]
  · intro line file lines hline ih
    exact List.forall_mem_cons.2 ⟨hline, ih⟩

/-! ## What a line sets -/

theorem settingsOf_of_nil : settingsOf [] = [] := rfl

/-- A line end says nothing. -/
theorem parseLine_append_lf (line : Bytes) : parseLine (line ++ [10]) = parseLine line := by
  have htrim : trim (cstr (line ++ [10])) = trim (cstr line) := by
    by_cases hzero : (0 : UInt8) ∈ line
    · rw [cstr_append_of_mem hzero]
    · rw [cstr_eq_self (by simp [hzero]), cstr_eq_self hzero, trim_append_lf]
  rw [parseLine, parseLine, htrim]

/-- The pieces of what follows a line end are their own. -/
theorem settingsOf_append (line file : Bytes) :
    settingsOf (line ++ 10 :: file) = settingsOf (line ++ [10]) ++ settingsOf file := by
  have hpieces : fgetsLines (line ++ 10 :: file) = fgetsLines (line ++ [10]) ++ fgetsLines file :=
    pieces_append line file
  rw [settingsOf, hpieces, List.map_append, List.filter_append]
  rfl

/-- The first piece of a line, and the others. -/
theorem settingsOf_line {line : Bytes} (hne : line ≠ []) (h : (10 : UInt8) ∉ line.dropLast) :
    settingsOf line =
      [parseLine (line.take 511)].filter (· ≠ .nothing) ++ settingsOf (line.drop 511) := by
  have hpieces : fgetsLines line = line.take 511 :: fgetsLines (line.drop 511) :=
    piecesFrom_oneLine hne h
  rw [settingsOf, hpieces, List.map_cons, ← List.singleton_append, List.filter_append]
  rfl

/-- A line that fits the buffer is read as a whole. -/
theorem settingsOf_of_short {line : Bytes} (h : (10 : UInt8) ∉ line) (hlen : line.length ≤ 511) :
    settingsOf line = [parseLine line].filter (· ≠ .nothing) := by
  by_cases hne : line = []
  · subst hne
    rfl
  · rw [settingsOf_line hne fun hmem => h (List.mem_of_mem_dropLast hmem), List.take_of_length_le hlen,
      List.drop_eq_nil_of_le hlen, settingsOf_of_nil, List.append_nil]

/-- A line sets the same with its end and without it. -/
theorem settingsOf_append_lf {line : Bytes} (h : (10 : UInt8) ∉ line) :
    settingsOf (line ++ [10]) = settingsOf line := by
  induction hn : line.length using Nat.strongRecOn generalizing line with
  | _ n ih =>
    subst hn
    rw [settingsOf_line (by simp) (by simpa using h)]
    by_cases hlen : line.length ≤ 510
    · have hfits : (line ++ [10]).length ≤ 511 := by
        rw [List.length_append, List.length_singleton]
        omega
      rw [List.take_of_length_le hfits, List.drop_eq_nil_of_le hfits, settingsOf_of_nil, List.append_nil,
        parseLine_append_lf, settingsOf_of_short h (by omega)]
    · have hne : line ≠ [] := by
        rintro rfl
        exact hlen (Nat.zero_le _)
      have hrest : (10 : UInt8) ∉ line.drop 511 := fun hmem => h (List.mem_of_mem_drop hmem)
      rw [List.take_append_of_le_length (by omega), List.drop_append_of_le_length (by omega),
        ih _ (by rw [List.length_drop]; omega) hrest rfl,
        settingsOf_line hne fun hmem => h (List.mem_of_mem_dropLast hmem)]

/-- **What a file sets is what its lines set.** -/
theorem settingsOf_eq_flatMap (file : Bytes) : settingsOf file = (fileLines file).flatMap settingsOf := by
  refine fileLines_rule (P := fun file lines => settingsOf file = lines.flatMap settingsOf) ?_ ?_ file
  · intro line _
    exact (List.flatMap_singleton ..).symm
  · intro line file lines hline ih
    rw [settingsOf_append, settingsOf_append_lf hline, ih, List.flatMap_cons]

/-- **A load is what the file sets**, one after the other. -/
theorem load_eq_foldl (env : LoadEnv) (file : Bytes) (s : ArwsConfig) :
    arwsConfigLoad env file s = (settingsOf file).foldl (Loading.read env) ⟨s.reset, []⟩ := by
  rw [arwsConfigLoad, settingsOf, Loading.readLines]
  generalize (⟨s.reset, []⟩ : Loading) = st
  induction fgetsLines file generalizing st with
  | nil => rfl
  | cons piece pieces ih =>
    rw [List.foldl_cons, ih, Loading.readLine, List.map_cons]
    cases hparse : parseLine piece with
    | nothing => rfl
    | keyed key val => rfl
    | setting name value => rfl

end Config
end Arws
