import Arws.Json.Characters
import Arws.Json.Grammar

/-!
# What is printed is read back

The text of an item, formatted or not, is in the grammar as a text of this item.  So what the printer returns
for an item is read as the item, if it has no raw texts, its strings are C strings and its numbers are read back
from what is printed for them.

* `denotes_render` — the text of an item denotes it.
* `cJsonParse_print` — the printer's text is read as the item that was printed.
* `cJsonParse_spells` — a text of Unicode characters in any of its ways to be written.
-/

set_option autoImplicit false

namespace Arws
namespace Json

open CString Checked

variable {D : Type} {ops : Doubles D}

mutual

/-- An item without raw texts, whose strings are C strings and whose numbers are read back. -/
def Item.ReadsBack (ops : Doubles D) : Item D → Prop
  | .null | .false | .true => True
  | .number d =>
    NumberSyntax (numberText ops d) ∧ ops.strtod (numberText ops d) = some (d, (numberText ops d).length)
  | .string s => (0 : UInt8) ∉ s
  | .raw _ => False
  | .array child => ReadsBackElements ops child
  | .object child => ReadsBackMembers ops child

def ReadsBackElements (ops : Doubles D) : List (Item D) → Prop
  | [] => True
  | element :: rest => element.ReadsBack ops ∧ ReadsBackElements ops rest

def ReadsBackMembers (ops : Doubles D) : List (Bytes × Item D) → Prop
  | [] => True
  | (name, value) :: rest => (0 : UInt8) ∉ name ∧ value.ReadsBack ops ∧ ReadsBackMembers ops rest

end

/-! ## Blanks around children -/

theorem Blank.append {w w' : Bytes} (hw : Blank w) (hw' : Blank w') : Blank (w ++ w') := fun c hc =>
  (List.mem_append.1 hc).elim (hw c) (hw' c)

theorem DenotesElements.blank {l : List (Item D)} {w t : Bytes} (hw : Blank w) (h : DenotesElements ops l t) :
    DenotesElements ops l (w ++ t) := by
  cases h with
  | nil hw' => exact .nil (hw.append hw')
  | last hw₁ h hw' =>
    rw [← List.append_assoc]
    exact .last (hw.append hw₁) h hw'
  | more hw₁ h hw' hl hu =>
    rw [← List.append_assoc]
    exact .more (hw.append hw₁) h hw' hl hu

theorem DenotesMembers.blank {l : List (Bytes × Item D)} {w t : Bytes} (hw : Blank w)
    (h : DenotesMembers ops l t) : DenotesMembers ops l (w ++ t) := by
  cases h with
  | nil hw' => exact .nil (hw.append hw')
  | last hw₁ hname hc h hw' =>
    rw [← List.append_assoc]
    exact .last (hw.append hw₁) hname hc h hw'
  | more hw₁ hname hc h hw' hl hu =>
    rw [← List.append_assoc]
    exact .more (hw.append hw₁) hname hc h hw' hl hu

/-- Blanks behind the last member. -/
theorem DenotesMembers.append_blank {l : List (Bytes × Item D)} {t w : Bytes} (h : DenotesMembers ops l t)
    (hw : Blank w) : DenotesMembers ops l (t ++ w) := by
  induction l generalizing t with
  | nil =>
    cases h with
    | nil hw₁ => exact .nil (hw₁.append hw)
  | cons a l ih =>
    cases h with
    | last hw₁ hname hc h hw' =>
      simp only [List.append_assoc, List.cons_append]
      exact .last hw₁ hname hc h (hw'.append hw)
    | more hw₁ hname hc h hw' hl hu =>
      simp only [List.append_assoc, List.cons_append]
      exact .more hw₁ hname hc h hw' hl (ih hu)

theorem blank_indent (format : Bool) (depth : ℕ) : Blank (indent format depth) := by
  rw [indent]
  split_ifs
  · intro c hc
    rw [List.eq_of_mem_replicate hc]
    decide
  · exact blank_nil

theorem denotesColon_colon (format : Bool) : DenotesColon (colon format) := by
  cases format with
  | false => exact .mk (w := []) blank_nil blank_nil
  | true => exact .mk (w := []) blank_nil (by decide : Blank [9])

theorem reads_cstr {s : Bytes} (hs : (0 : UInt8) ∉ s) : Reads ((cstr s).flatMap printedByte) s := by
  rw [cstr_eq_self hs]
  exact reads_printed s

/-! ## The text of an item -/

mutual

/-- **The text of an item** denotes it. -/
theorem denotes_render (format : Bool) :
    ∀ (v : Item D) (depth : ℕ), v.ReadsBack ops → Denotes ops v (render ops format v depth)
  | .null, _, _ => .null
  | .false, _, _ => .false
  | .true, _, _ => .true
  | .number d, _, h => .number h.1 h.2
  | .raw _, _, h => h.elim
  | .string s, _, h => .string (reads_cstr h)
  | .array child, depth, h => .array (denotes_renderElements format child (depth + 1) h)
  | .object child, depth, h => by
    have hchildren := denotes_renderMembers format child (depth + 1) h
    have hopening : opening format = 123 :: (if format then [10] else []) := by cases format <;> rfl
    have hblank : Blank (if format then [10] else []) := by cases format <;> decide
    have hbody := (hchildren.append_blank (blank_indent format depth)).blank hblank
    rw [render, hopening]
    simpa [List.append_assoc] using Denotes.object hbody

theorem denotes_renderElements (format : Bool) : ∀ (l : List (Item D)) (depth : ℕ), ReadsBackElements ops l →
    DenotesElements ops l (renderElements ops format l depth)
  | [], _, _ => .nil blank_nil
  | [v], depth, h => by
    have hlast := DenotesElements.last blank_nil (denotes_render format v depth h.1) blank_nil
    simpa [renderElements] using hlast
  | v :: v' :: l, depth, h => by
    have hrest := denotes_renderElements format (v' :: l) depth h.2
    have hv := denotes_render format v depth h.1
    rw [renderElements]
    cases format with
    | false => exact .more blank_nil hv blank_nil (List.cons_ne_nil _ _) hrest
    | true =>
      refine .more blank_nil hv blank_nil (List.cons_ne_nil _ _) (hrest.blank (w := [32]) (by decide))

theorem denotes_renderMembers (format : Bool) : ∀ (l : List (Bytes × Item D)) (depth : ℕ),
    ReadsBackMembers ops l → DenotesMembers ops l (renderMembers ops format l depth)
  | [], _, _ => .nil blank_nil
  | [(name, v)], depth, h => by
    have hv := denotes_render format v depth h.2.1
    have hend : Blank (if format then [10] else []) := by cases format <;> decide
    have hmember := DenotesMembers.last (blank_indent format depth) (reads_cstr h.1) (denotesColon_colon format) hv
      hend
    rw [renderMembers, renderMembers]
    simpa [quoted, JsonText.quote, memberEnd, List.append_assoc] using hmember
  | (name, v) :: (name', v') :: l, depth, h => by
    have hrest := denotes_renderMembers format ((name', v') :: l) depth h.2.2
    have hv := denotes_render format v depth h.2.1
    have hend : Blank (if format then [10] else []) := by cases format <;> decide
    have hmember := DenotesMembers.more (blank_indent format depth) (reads_cstr h.1) (denotesColon_colon format) hv
      blank_nil (List.cons_ne_nil _ _) (hrest.blank hend)
    rw [renderMembers]
    simpa [quoted, JsonText.quote, memberEnd, List.append_assoc] using hmember

end

/-! ## Whole texts -/

/-- **What is printed** for an item without raw texts is read as the item. -/
theorem cJsonParse_print {v : Item D} {format : Bool} {text : Bytes} (hprint : print ops v format = .ok text)
    (hv : v.ReadsBack ops) : cJsonParse ops (cstr text) = .ok v := by
  by_cases hok : v.Printable ops 0 ∧ (render ops format v 0).length + 2 ≤ intMax
  · rw [print_ok hok.1 hok.2] at hprint
    cases hprint
    rw [cstr_append_zero (zero_notMem_render ops format v 0)]
    exact cJsonParse_text (denotes_render format v 0 hv) hok.1.2
  · rw [print_refused hok] at hprint
    cases hprint

/-- An object with numbers, and a name and a string with escapes. -/
theorem cJsonParse_print_object :
    let v : Item Int := .object [([97, 34], .array [.number (-17), .null]), ([], .string [10, 1, 233])]
    cJsonParse integers (cstr (render integers Bool.true v 0 ++ [0])) = .ok v :=
  cJsonParse_print
    (print_ok ⟨⟨⟨show 3 ≤ 25 by decide, trivial, trivial⟩, trivial, trivial⟩, show 2 ≤ 1000 by decide⟩
      (by decide))
    ⟨by decide, ⟨⟨⟨by decide, _, _, rfl, by decide⟩, rfl⟩, trivial, trivial⟩, by decide,
      show (0 : UInt8) ∉ [10, 1, 233] by decide, trivial⟩

/-- **A text of Unicode characters** is read as its UTF-8, whichever way it is written. -/
theorem cJsonParse_spells {t : Bytes} {s : List Char} (h : Spells t s) (ops : Doubles D) :
    cJsonParse ops (JsonText.quote :: (t ++ [JsonText.quote])) = .ok (.string (utf8Bytes s)) := by
  have hstring : Denotes ops (.string (utf8Bytes s)) (JsonText.quote :: (t ++ [JsonText.quote])) :=
    .string (reads_of_spells h)
  exact cJsonParse_text hstring (Nat.zero_le _)

/-- A character beyond the first plane, written as a surrogate pair, and one that is written in UTF-8. -/
theorem cJsonParse_spells_pair :
    cJsonParse integers (JsonText.quote :: (ascii "\\ud83d\\ude00" ++ [195, 169] ++ [JsonText.quote])) =
      .ok (.string (utf8Bytes ['😀', 'é'])) :=
  cJsonParse_spells (s := ['😀', 'é'])
    (@Spells.pair 100 56 51 100 100 101 48 48 0xD83D 0xDE00 '😀' _ _ rfl (by decide) rfl (by decide) rfl
      (.plain (c := 'é') (by decide) .nil)) integers

end Json
end Arws
