import Arws.Config.LongLines
import Arws.Config.RoutesKept
import Arws.Json.Soundness

/-!
# The addresses that are let in

`save_config` writes the addresses between quotes as they are, and `arws_config_load` reads their line with
`cJSON_Parse`.  The parser reads back a list of addresses without quotes and backslashes, and nothing else that it
reads from a list is longer than what is written; so a list that was loaded from any file is kept by the next save
and load, if and only if its line fits the buffer and it has no sign that JSON would escape.

* `readsArrays_cJSONArray` — the parser, on lists of addresses.
* `listKept_load` — what is loaded from a file, written, and loaded again.
-/

set_option autoImplicit false

namespace Arws
namespace Config

open CString Json

variable {D : Type} {ops : Doubles D}

/-- `cJSON_IsString(item)`, and what `item->valuestring` is then. -/
def stringOf : Item D → Option Bytes
  | .string s => some s
  | _ => none

/-- The strings of an array, as `cJSON_Parse` and `cJSON_ArrayForEach` give them. -/
def cJSONArray (ops : Doubles D) (text : Bytes) : Option (List Bytes) :=
  match cJsonParse ops text with
  | .ok (.array child) => some (child.filterMap stringOf)
  | _ => none

theorem cJSONArray_eq_some {text : Bytes} {read : List Bytes} (h : cJSONArray ops text = some read) :
    ∃ child, cJsonParse ops text = .ok (.array child) ∧ child.filterMap stringOf = read := by
  rw [cJSONArray] at h
  split at h
  · rename_i child hparse
    exact ⟨child, hparse, Option.some.inj h⟩
  · cases h

/-! ## Lists that are printed -/

/-- An address between quotes. -/
def quoted (ip : Bytes) : Bytes := 34 :: ip ++ [34]

theorem ipList_eq (ips : List Bytes) : ipList ips = 91 :: ([44].intercalate (ips.map quoted) ++ [93]) := rfl

theorem without_iff {ip : Bytes} : Without [34, 92] ip ↔ JsonText.quote ∉ ip ∧ JsonText.backslash ∉ ip :=
  List.forall_mem_cons.trans (and_congr_right fun _ => List.forall_mem_singleton)

theorem denotes_quoted {ip : Bytes} (h : Without [34, 92] ip) : Denotes ops (.string ip) (quoted ip) :=
  .string (reads_self (without_iff.1 h).1 (without_iff.1 h).2)

theorem denotesElements_quoted {ips : List Bytes} (h : ∀ ip ∈ ips, Without [34, 92] ip) :
    DenotesElements ops (ips.map Item.string) ([44].intercalate (ips.map quoted)) := by
  induction ips with
  | nil => exact .nil blank_nil
  | cons ip ips ih =>
    obtain ⟨hip, hips⟩ := List.forall_mem_cons.1 h
    cases ips with
    | nil =>
      have hone : DenotesElements ops [.string ip] ([] ++ (quoted ip ++ [])) :=
        .last blank_nil (denotes_quoted hip) blank_nil
      simpa using hone
    | cons next ips =>
      have hvalue : Denotes ops (.string ip) (quoted ip) := denotes_quoted hip
      have hmore := DenotesElements.more blank_nil hvalue blank_nil (by simp) (ih hips)
      simpa [List.intercalate_cons_cons] using hmore

/-- A list of plain addresses is read as it was printed. -/
theorem cJSONArray_ipList {ips : List Bytes} (h : ∀ ip ∈ ips, Without [34, 92] ip) :
    cJSONArray ops (ipList ips) = some ips := by
  have hdepth : (Item.array (ips.map Item.string) : Item D).depth ≤ nestingLimit := by
    have hzero : depthOfElements (ips.map (Item.string : Bytes → Item D)) = 0 := by
      induction ips with
      | nil => rfl
      | cons ip ips ih =>
        rw [List.map_cons, depthOfElements, ih (List.forall_mem_cons.1 h).2]
        rfl
    rw [Item.depth, hzero]
    decide
  have helements : DenotesElements ops (ips.map Item.string) ([44].intercalate (ips.map quoted)) :=
    denotesElements_quoted h
  have hparse := cJsonParse_text (.array helements) hdepth
  rw [cJSONArray, ipList_eq, hparse]
  simp [List.filterMap_map, Function.comp_def, stringOf]

/-! ## Lists that are read -/

theorem sizeOfElements_eq (l : List (Item D)) : sizeOfElements l = (l.map fun v => v.size + 1).sum - 1 := by
  induction l with
  | nil => rfl
  | cons v l ih =>
    cases l with
    | nil => simp [sizeOfElements]
    | cons u l =>
      rw [sizeOfElements_cons v (List.cons_ne_nil u l), ih]
      simp only [List.map_cons, List.sum_cons]
      omega

/-- The strings of an array are no longer than the array, and as long only if there is nothing else in it. -/
theorem sum_filterMap_le (l : List (Item D)) :
    ((l.filterMap stringOf).map fun s => s.length + 3).sum ≤ (l.map fun v => v.size + 1).sum ∧
      ((l.map fun v => v.size + 1).sum ≤ ((l.filterMap stringOf).map fun s => s.length + 3).sum →
        l = (l.filterMap stringOf).map Item.string) := by
  induction l with
  | nil => exact ⟨le_rfl, fun _ => rfl⟩
  | cons v l ih =>
    obtain ⟨hle, heq⟩ := ih
    have hpos := v.size_pos
    cases v with
    | string s =>
      simp only [List.filterMap_cons, stringOf, List.map_cons, List.sum_cons, Item.size]
      exact ⟨by omega, fun h => congrArg _ (heq (by omega))⟩
    | null | false | true | number d | raw s | array l' | object l' =>
      simp only [List.filterMap_cons, stringOf, List.map_cons, List.sum_cons]
      exact ⟨by omega, fun h => by omega⟩

theorem length_ipList_le (l : List (Item D)) :
    (ipList (l.filterMap stringOf)).length ≤ (Item.array l).size ∧
      ((Item.array l).size ≤ (ipList (l.filterMap stringOf)).length →
        l = (l.filterMap stringOf).map Item.string) := by
  obtain ⟨hle, heq⟩ := sum_filterMap_le l
  rw [length_ipList, Item.size, sizeOfElements_eq]
  refine ⟨by omega, fun h => ?_⟩
  cases l with
  | nil => rfl
  | cons v l =>
    have hpos := v.size_pos
    simp only [List.map_cons, List.sum_cons] at h heq
    exact heq (by omega)

/-- A text of addresses is no shorter than what is printed for them, and as short only if they are plain. -/
theorem denotesElements_length {ips : List Bytes} {t : Bytes}
    (h : DenotesElements ops (ips.map Item.string) t) :
    ([44].intercalate (ips.map quoted)).length ≤ t.length ∧
      (t.length ≤ ([44].intercalate (ips.map quoted)).length → ∀ ip ∈ ips, Without [34, 92] ip) := by
  induction ips generalizing t with
  | nil => exact ⟨Nat.zero_le _, fun _ ip hip => nomatch hip⟩
  | cons ip ips ih =>
    have hquoted : (quoted ip).length = ip.length + 2 := by simp [quoted]
    rw [List.map_cons] at h
    cases ips with
    | nil =>
      cases h with
      | last hw hv hw' =>
        cases hv with
        | string hreads =>
          obtain ⟨hle, hplain⟩ := length_of_reads hreads
          simp only [List.map_cons, List.map_nil, List.intercalate_singleton, hquoted, List.length_append,
            List.length_cons, List.length_nil]
          refine ⟨by omega, fun h ip' hip' => ?_⟩
          rw [List.mem_singleton.1 hip']
          exact without_iff.2 (hplain (by omega))
      | more hw hv hw' hl hu => exact absurd rfl hl
    | cons next ips =>
      cases h with
      | @more w t w' u v l hw hv hw' hl hu =>
        cases hv with
        | string hreads =>
          obtain ⟨hle, hplain⟩ := length_of_reads hreads
          obtain ⟨hle', hplain'⟩ := ih hu
          simp only [List.map_cons, List.intercalate_cons_cons, hquoted, List.length_append, List.length_cons,
            List.length_nil] at hle' hplain' ⊢
          refine ⟨by omega, fun h => List.forall_mem_cons.2 ⟨?_, hplain' (by omega)⟩⟩
          exact without_iff.2 (hplain (by omega))

theorem zeroFree_strings {ips : List Bytes} (h : ∀ ip ∈ ips, (0 : UInt8) ∉ ip) :
    ZeroFreeElements (ips.map (Item.string : Bytes → Item D)) := by
  induction ips with
  | nil => trivial
  | cons ip ips ih =>
    obtain ⟨hip, hips⟩ := List.forall_mem_cons.1 h
    exact ⟨hip, ih hips⟩

/-- **The parser reads lists of addresses** as those of plain ones are printed, and none that is longer than its
text. -/
theorem readsArrays_cJSONArray {ips : List Bytes} (hzero : ∀ ip ∈ ips, (0 : UInt8) ∉ ip) :
    ReadsArrays (cJSONArray ops) ips where
  printed := by
    refine ⟨fun h => ?_, cJSONArray_ipList⟩
    obtain ⟨child, hparse, hread⟩ := cJSONArray_eq_some h
    obtain ⟨mark, w, t, tail, htext, -, -, -, hsize, hstands⟩ := parse_accepts hparse
    have hle : t.length ≤ (ipList ips).length := by
      rw [htext]
      simp only [List.length_append]
      omega
    -- there is nothing but the addresses in the array
    have hchild : child = ips.map Item.string := by
      have hsame := (length_ipList_le child).2
      rw [hread] at hsame
      exact hsame (hsize.trans hle)
    subst hchild
    have hdenotes : Denotes ops (.array (ips.map Item.string)) t := hstands (zeroFree_strings hzero)
    cases hdenotes with
    | array helements =>
      refine (denotesElements_length helements).2 ?_
      rw [ipList_eq] at hle
      simpa using hle
  length_le h := by
    obtain ⟨child, hparse, rfl⟩ := cJSONArray_eq_some h
    obtain ⟨mark, w, t, tail, rfl, -, -, -, hsize, -⟩ := parse_accepts hparse
    have hle := (length_ipList_le child).1
    simp only [List.length_append]
    omega

/-! ## Loaded, written, and loaded again -/

/-- The load, with the parser of the repository. -/
def parserEnv (ops : Doubles D) (behind : Bytes → Bytes) : LoadEnv := ⟨cJSONArray ops, behind⟩

/-- **The addresses of any file** are kept by the next save and load, if and only if there are none, or their line
fits the buffer and none of them has a line end, a quote or a backslash. -/
theorem listKept_load (ops : Doubles D) (behind : Bytes → Bytes) (file : Bytes) (s₀ : ArwsConfig) :
    let env := parserEnv ops behind
    let s := (arwsConfigLoad env file s₀).config
    ListKept env s ↔ s.maintenanceIps = [] ∨
      (ipsLine s).length ≤ 511 ∧ ∀ ip ∈ s.maintenanceIps, Without [10, 34, 92] ip := by
  intro env s
  have hstored : Stored s := stored_load env file s₀
  exact listKept_iff hstored (Routes.lf_notMem_mode env file s₀)
    (readsArrays_cJSONArray fun ip hip => (hstored.maintenanceIps ip hip).1)

end Config
end Arws
