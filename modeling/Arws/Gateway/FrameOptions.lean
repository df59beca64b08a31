import Arws.Library.Words
import Arws.Gateway.Register

/-!
# The options of a registration

A client writes the five words of an `IPC_REGISTER` frame and its options, with one blank between them.
The handler reads `proxy=` where it stands right behind the words, and the other options with `strstr`
wherever the text has them first.

* `wordBehind_mentioned` — what is read is behind the first mention, in whatever word that is.
* `extracts_iff` — each option is read from its own word, and as it was written, exactly for frames
  whose words do not get in the way of each other.
-/

set_option autoImplicit false

namespace Arws
namespace Gateway

open CString

/-! ## The frame as it is written -/

inductive OptionKey
  | proxy
  | type
  | redirect
  | rl
  deriving DecidableEq

/-- How an option begins. -/
def OptionKey.text : OptionKey → Bytes
  | .proxy => ascii "proxy="
  | .type => ascii "type="
  | .redirect => ascii "redirect="
  | .rl => ascii "rl="

/-- A word for a field. -/
structure Fits (width : ℕ) (w : Bytes) : Prop extends IsWord w where
  length_le : w.length ≤ width

structure RegisterRequest where
  name : Bytes
  pathPrefix : Bytes
  method : Bytes
  host : Bytes
  mode : Bytes
  options : List (OptionKey × Bytes)
  fits_name : Fits 63 name
  fits_prefix : Fits 255 pathPrefix
  fits_method : Fits 15 method
  fits_host : Fits 255 host
  fits_mode : Fits 15 mode
  keys : (options.map (·.1)).Nodup
  values : ∀ o ∈ options, IsWord o.2

namespace RegisterRequest

variable (r : RegisterRequest)

def tokens : List Bytes := [r.name, r.pathPrefix, r.method, r.host, r.mode]

/-- The word of an option. -/
def optionWord (o : OptionKey × Bytes) : Bytes := o.1.text ++ o.2

def words : List Bytes := r.tokens ++ r.options.map optionWord

/-- The text of the frame: its words with a blank between them. -/
def text : Bytes := (behind r.words).tail

/-- The value of an option, if the frame has it. -/
def value? (k : OptionKey) : Option Bytes := r.options.lookup k

/-- The words before an option. -/
def wordsBefore (k : OptionKey) : List Bytes :=
  r.tokens ++ (r.options.takeWhile (·.1 != k)).map optionWord

/-- Where an option stands in the text. -/
def place (k : OptionKey) : Option ℕ := (r.value? k).map fun _ => (behind (r.wordsBefore k)).length

end RegisterRequest

/-- The numbers of a limit, if the first of them is positive. -/
def readLimit (s : Bytes) : Option (Int × Int) :=
  (scanInt s).bind fun (max, rest) =>
    let window := if rest.head? = some 44 then ((scanInt rest.tail).map (·.1)).getD 0 else 0
    if max > 0 then some (max, if window ≤ 0 then 60 else window) else none

/-- The limit that the handler comes to: a redirect has none. -/
def RegisterFrame.limit (frame : RegisterFrame) : Option (Int × Int) :=
  if frame.isRedirect then none else frame.rl

namespace RegisterRequest

variable (r : RegisterRequest)

/-- The limit that the frame asks for. -/
def limit : Option (Int × Int) := (r.value? .rl).bind readLimit

/-- **Every word and every option is read as it was written**, an option from its own word, and what is
not there is not read. -/
structure Extracts : Prop where
  name : (parseRegister r.text).name = r.name
  pathPrefix : (parseRegister r.text).pathPrefix = r.pathPrefix
  method : (parseRegister r.text).method = r.method
  host : (parseRegister r.text).host = r.host
  mode : (parseRegister r.text).mode = r.mode
  proxyUrl : (parseRegister r.text).proxyUrl = (r.value? .proxy).getD []
  typeStr : (parseRegister r.text).typeStr = (r.value? .type).getD []
  redirectUrl : (parseRegister r.text).redirectUrl = (r.value? .redirect).getD []
  limit : (parseRegister r.text).limit = r.limit
  own_type : (parseRegister r.text).typeStr ≠ [] →
    strstr (OptionKey.text .type) r.text = r.place .type
  own_redirect : (parseRegister r.text).redirectUrl ≠ [] →
    strstr (OptionKey.text .redirect) r.text = r.place .redirect
  own_limit : (parseRegister r.text).limit ≠ none →
    strstr (OptionKey.text .rl) r.text = r.place .rl

/-- The first mention of a key ends the last word. -/
def MentionedLast (k : OptionKey) : Prop :=
  ∃ pre a, r.words = pre ++ [a ++ k.text] ∧ Unmentioned k.text pre ∧
    strstr k.text (a ++ k.text) = some a.length

/-- No word before an option mentions it, and its value has room; an option that is not there is not
mentioned, or at the very end. -/
def KeyClear (k : OptionKey) (width : ℕ) : Prop :=
  match r.value? k with
  | some v => Unmentioned k.text (r.wordsBefore k) ∧ v.length ≤ width
  | none => Unmentioned k.text r.words ∨ r.MentionedLast k

/-- Behind the first mention of `rl=` is a positive number. -/
def MentionsLimit : Prop :=
  ∃ i n rest, strstr (OptionKey.text .rl) r.text = some i ∧
    scanInt (r.text.drop (i + 3)) = some (n, rest) ∧ 0 < n

def IsRedirect : Prop := r.value? .redirect ≠ none ∨ r.value? .type = some (ascii "redirect")

/-- What the frame is to be for its options to be read. -/
structure Clear : Prop where
  proxy : ∀ v, r.value? .proxy = some v → r.options.head? = some (.proxy, v) ∧ v.length ≤ 255
  type : r.KeyClear .type 15
  redirect : r.KeyClear .redirect 255
  noLimit : r.IsRedirect → r.limit = none
  rl : ¬ r.IsRedirect → (r.value? .rl ≠ none ∧ Unmentioned (OptionKey.text .rl) (r.wordsBefore .rl)) ∨
    (r.limit = none ∧ ¬ r.MentionsLimit)

end RegisterRequest

/-! ## Words are read -/

section Scan

variable {w t : Bytes} {width : ℕ}

theorem isSpace_of_head? {words : List Bytes} : ∀ c ∈ (behind words).head?, isSpace c = true := by
  intro c hc
  rw [head?_behind c hc]
  rfl

/-- A word is read as far as the width goes. -/
theorem scanWord_word (hw : IsWord w) (ht : ∀ c ∈ t.head?, isSpace c = true) (hwidth : 0 < width) :
    scanWord width (w ++ t) = some (w.take width, w.drop width ++ t) := by
  obtain ⟨c, w, rfl⟩ := List.exists_cons_of_ne_nil hw.ne
  have hdrop : (c :: w ++ t).dropWhile isSpace = c :: w ++ t := by
    rw [List.cons_append, List.dropWhile_cons_of_neg]
    rw [(hw.plain c List.mem_cons_self).1]
    exact Bool.false_ne_true
  have htake : (c :: w ++ t).takeWhile (fun c => !isSpace c) = c :: w := by
    rw [List.takeWhile_append_of_pos fun d hd => by rw [(hw.plain d hd).1]; rfl]
    cases t with
    | nil => rw [List.takeWhile_nil, List.append_nil]
    | cons d t =>
      rw [List.takeWhile_cons_of_neg, List.append_nil]
      rw [ht d rfl]
      exact Bool.false_ne_true
  have hne : (c :: w).take width ≠ [] := by
    obtain ⟨n, rfl⟩ := Nat.exists_eq_succ_of_ne_zero (Nat.ne_of_gt hwidth)
    exact List.cons_ne_nil _ _
  rw [scanWord, hdrop, htake, if_neg hne, List.length_take]
  congr 2
  rw [List.drop_append]
  by_cases hlen : (c :: w).length ≤ width
  · rw [Nat.min_eq_right hlen, List.drop_length, List.drop_of_length_le hlen, Nat.sub_self,
      List.drop_zero]
  · rw [Nat.min_eq_left (Nat.le_of_not_le hlen), Nat.sub_eq_zero_of_le (Nat.le_of_not_le hlen),
      List.drop_zero]

theorem scanWord_nil (width : ℕ) : scanWord width [] = none := by
  rw [scanWord, List.dropWhile_nil, List.takeWhile_nil, List.take_nil, if_pos rfl]

theorem scanWord_blank (width : ℕ) (s : Bytes) : scanWord width (32 :: s) = scanWord width s := by
  rw [scanWord, scanWord, List.dropWhile_cons_of_pos rfl]

/-- The first of the words behind blanks. -/
theorem scanWord_behind {words : List Bytes} (hw : IsWord w) (hwidth : 0 < width) :
    scanWord width (behind (w :: words)) = some (w.take width, w.drop width ++ behind words) := by
  rw [behind_cons, List.cons_append, scanWord_blank, scanWord_word hw isSpace_of_head? hwidth]

theorem scanWord_fits (hw : Fits width w) (ht : ∀ c ∈ t.head?, isSpace c = true) :
    scanWord width (w ++ t) = some (w, t) := by
  have hpos : 0 < width := (List.length_pos_iff.2 hw.ne).trans_le hw.length_le
  rw [scanWord_word hw.toIsWord ht hpos, List.take_of_length_le hw.length_le,
    List.drop_of_length_le hw.length_le, List.nil_append]

/-- **What is read behind a pattern** is what the first word that has it in it has behind it, or the
next word. -/
theorem wordBehind_mentioned {pat : Bytes} {pre post : List Bytes} {j : ℕ}
    (hblank : (32 : UInt8) ∉ pat) (hne : pat ≠ []) (hwords : ∀ u ∈ w :: post, IsWord u)
    (hpre : Unmentioned pat pre) (hw : strstr pat w = some j) (hwidth : 0 < width) :
    wordBehind pat width (behind (pre ++ w :: post)) =
      (if w.drop (j + pat.length) = [] then post.headD [] else w.drop (j + pat.length)).take width := by
  have hword := hwords w List.mem_cons_self
  rw [wordBehind, strstr_behind hblank hne hpre hw, Option.bind_some, drop_behind hw]
  split_ifs with hend
  · rw [hend, List.nil_append]
    cases post with
    | nil =>
      have hnone : scanWord width (behind []) = none := scanWord_nil width
      rw [hnone, List.headD_nil, List.take_nil]
      rfl
    | cons u post =>
      rw [scanWord_behind (hwords u (List.mem_cons_of_mem _ List.mem_cons_self)) hwidth]
      rfl
  · have hrest : IsWord (w.drop (j + pat.length)) :=
      ⟨hend, fun c hc => hword.plain c (List.mem_of_mem_drop hc)⟩
    rw [scanWord_word hrest isSpace_of_head? hwidth]
    rfl

end Scan

/-! ## The words and `proxy=` -/

theorem OptionKey.text_facts (k : OptionKey) : (32 : UInt8) ∉ k.text ∧ k.text ≠ [] ∧
    (∀ c ∈ k.text, isSpace c = false ∧ c ≠ 0) ∧
    ∀ c ∈ k.text.head?, isDigit c = false ∧ c ≠ 43 ∧ c ≠ 45 ∧ isSpace c = false := by
  cases k <;> decide +kernel

namespace RegisterRequest

variable {r : RegisterRequest} {k : OptionKey}

theorem isWord_optionWord {o : OptionKey × Bytes} (ho : IsWord o.2) : IsWord (optionWord o) := by
  obtain ⟨-, hne, hplain, -⟩ := o.1.text_facts
  refine ⟨List.append_ne_nil_of_left_ne_nil hne _, fun c hc => ?_⟩
  rcases List.mem_append.1 hc with hc | hc
  · exact hplain c hc
  · exact ho.plain c hc

theorem isWord_words : ∀ w ∈ r.words, IsWord w := by
  intro w hw
  rw [words, List.mem_append, List.mem_map] at hw
  rcases hw with hw | ⟨o, ho, rfl⟩
  · rw [tokens] at hw
    simp only [List.mem_cons, List.not_mem_nil, or_false] at hw
    rcases hw with rfl | rfl | rfl | rfl | rfl
    · exact r.fits_name.toIsWord
    · exact r.fits_prefix.toIsWord
    · exact r.fits_method.toIsWord
    · exact r.fits_host.toIsWord
    · exact r.fits_mode.toIsWord
  · exact isWord_optionWord (r.values o ho)

theorem behind_words : behind r.words = 32 :: r.text := by
  rw [text, words, tokens, List.cons_append, behind_cons]
  rfl

/-- The five words are read as they were written. -/
theorem scanWords_text : scanWords [63, 255, 15, 255, 15] r.text =
    (r.tokens, behind (r.options.map optionWord)) := by
  have htext : r.text = r.name ++ behind ([r.pathPrefix, r.method, r.host, r.mode] ++
      r.options.map optionWord) := rfl
  have hnext : ∀ (width : ℕ) (w : Bytes) (ws : List Bytes), Fits width w →
      scanWord width (behind (w :: ws)) = some (w, behind ws) := by
    intro width w ws hw
    rw [behind_cons, List.cons_append, scanWord_blank, scanWord_fits hw isSpace_of_head?]
  rw [htext, scanWords, scanWord_fits r.fits_name isSpace_of_head?]
  simp only [List.cons_append, scanWords, hnext _ _ _ r.fits_prefix, hnext _ _ _ r.fits_method,
    hnext _ _ _ r.fits_host, hnext _ _ _ r.fits_mode, List.nil_append]
  rfl

/-- `proxy=` is read where it is the first option. -/
theorem proxyUrl_text : (parseRegister r.text).proxyUrl =
    match r.options.head? with
    | some (.proxy, v) => v.take 255
    | _ => [] := by
  have hlen : r.tokens.length = 5 := rfl
  rw [parseRegister, scanWords_text]
  simp only [hlen, true_and]
  cases hopts : r.options with
  | nil =>
    rw [if_neg]
    · rfl
    · decide +kernel
  | cons o os =>
    obtain ⟨k, v⟩ := o
    have hv : IsWord v := r.values (k, v) (hopts ▸ List.mem_cons_self)
    have hword : IsWord (optionWord (k, v)) := isWord_optionWord hv
    have hskip : (behind ((optionWord (k, v)) :: os.map optionWord)).dropWhile isSpace =
        k.text ++ (v ++ behind (os.map optionWord)) := by
      obtain ⟨c, u, hcu⟩ := List.exists_cons_of_ne_nil hword.ne
      have hc : isSpace c = false := (hword.plain c (hcu ▸ List.mem_cons_self)).1
      rw [behind_cons, List.cons_append, List.dropWhile_cons_of_pos rfl, hcu, List.cons_append,
        List.dropWhile_cons_of_neg (by rw [hc]; exact Bool.false_ne_true), ← List.cons_append, ← hcu,
        optionWord, List.append_assoc]
    rw [List.map_cons, hskip, List.head?_cons]
    cases k with
    | proxy =>
      have hdrop : (OptionKey.proxy.text ++ (v ++ behind (os.map optionWord))).drop 6 =
          v ++ behind (os.map optionWord) := List.drop_left' (by decide)
      have hkey : ascii "proxy=" <+: OptionKey.proxy.text ++ (v ++ behind (os.map optionWord)) :=
        List.prefix_append _ _
      rw [if_pos hkey, hdrop, scanWord_word hv isSpace_of_head? (by decide)]
      rfl
    | type =>
      rw [if_neg]
      simp [OptionKey.text, ascii]
    | redirect =>
      rw [if_neg]
      simp [OptionKey.text, ascii]
    | rl =>
      rw [if_neg]
      simp [OptionKey.text, ascii]

/-! ## The other options -/

/-- The word of an option among the words. -/
theorem words_of_value {v : Bytes} (h : r.value? k = some v) : IsWord v ∧
    ∃ post : List (OptionKey × Bytes),
      r.words = r.wordsBefore k ++ optionWord (k, v) :: post.map optionWord ∧
      ∀ o ∈ post, IsWord o.2 := by
  obtain ⟨pre, post, hopts, hpre⟩ := List.lookup_eq_some_iff.1 h
  have htake : r.options.takeWhile (·.1 != k) = pre := by
    rw [hopts, List.takeWhile_append_of_pos, List.takeWhile_cons_of_neg, List.append_nil]
    · simp
    · intro o ho
      rw [bne_comm]
      exact hpre o ho
  refine ⟨r.values (k, v) (hopts ▸ List.mem_append_right _ List.mem_cons_self), post, ?_, fun o ho => ?_⟩
  · rw [words, wordsBefore, htake, hopts, List.map_append, List.map_cons, List.append_assoc]
  · exact r.values o (hopts ▸ List.mem_append_right _ (List.mem_cons_of_mem _ ho))

theorem strstr_optionWord (k : OptionKey) (v : Bytes) : strstr k.text (optionWord (k, v)) = some 0 :=
  strstr_eq_some_iff.2 ⟨Nat.zero_le _, List.prefix_append _ _, fun j hj => absurd hj (Nat.not_lt_zero j)⟩

/-- A mention in the words is one in the text. -/
theorem strstr_text {i : ℕ} (h : strstr k.text (behind r.words) = some (i + 1)) :
    strstr k.text r.text = some i := by
  obtain ⟨hblank, hne, -⟩ := k.text_facts
  rw [behind_words, strstr_cons_blank hblank hne] at h
  obtain ⟨i', hi', heq⟩ := Option.map_eq_some_iff.1 h
  rw [hi', Nat.succ.inj heq]

theorem strstr_text_none (h : Unmentioned k.text r.words) : strstr k.text r.text = none := by
  obtain ⟨hblank, hne, -⟩ := k.text_facts
  have hnone := strstr_behind_none hblank hne h
  rw [behind_words, strstr_cons_blank hblank hne] at hnone
  exact Option.map_eq_none_iff.1 hnone

/-- An option that no word before it mentions is found where it stands, -/
theorem strstr_own {v : Bytes} (h : r.value? k = some v) (hun : Unmentioned k.text (r.wordsBefore k)) :
    strstr k.text r.text = r.place k := by
  obtain ⟨hblank, hne, -⟩ := k.text_facts
  obtain ⟨-, post, hwords, -⟩ := words_of_value h
  have hfound := strstr_behind hblank hne hun (strstr_optionWord k v) (post.map optionWord)
  rw [← hwords] at hfound
  rw [strstr_text hfound, place, h]
  rfl

/-- and only such an option. -/
theorem unmentioned_of_own {v : Bytes} (h : r.value? k = some v)
    (hown : strstr k.text r.text = r.place k) : Unmentioned k.text (r.wordsBefore k) := by
  obtain ⟨hblank, hne, -⟩ := k.text_facts
  obtain ⟨-, rest, hwords, -⟩ := words_of_value h
  rcases exists_first k.text (r.wordsBefore k) with hun | ⟨pre, w, post, j, hsplit, hpre, hw⟩
  · exact hun
  · -- a word before the option has it: it is found there
    have hfound := strstr_behind hblank hne hpre hw
      (post ++ optionWord (k, v) :: rest.map optionWord)
    rw [hsplit, List.append_assoc, List.cons_append] at hwords
    rw [← hwords, Nat.add_right_comm] at hfound
    rw [strstr_text hfound, place, h, Option.map_some, hsplit, behind_append, behind_cons,
      Option.some.injEq, List.length_append, List.length_append, List.length_cons] at hown
    have := strstr_add_le hw
    have := List.length_pos_iff.2 hne
    omega

/-- **A word is read** behind the first mention. -/
theorem wordBehind_text {pre post : List Bytes} {w : Bytes} {j width : ℕ}
    (hwords : r.words = pre ++ w :: post) (hpre : Unmentioned k.text pre)
    (hw : strstr k.text w = some j) (hwidth : 0 < width) :
    wordBehind k.text width r.text =
      (if w.drop (j + k.text.length) = [] then post.headD [] else w.drop (j + k.text.length)).take
        width := by
  obtain ⟨hblank, hne, -⟩ := k.text_facts
  have hword : ∀ u ∈ w :: post, IsWord u := fun u hu =>
    isWord_words u (hwords ▸ List.mem_append_right _ hu)
  rw [← wordBehind_mentioned hblank hne hword hpre hw hwidth, ← hwords, behind_words, wordBehind,
    wordBehind, strstr_cons_blank hblank hne]
  cases strstr k.text r.text with
  | none => rfl
  | some i =>
    rw [Option.map_some, Option.bind_some, Option.bind_some, Nat.add_right_comm, List.drop_succ_cons]

theorem wordBehind_text_none {width : ℕ} (h : Unmentioned k.text r.words) :
    wordBehind k.text width r.text = [] := by
  rw [wordBehind, strstr_text_none h]
  rfl

/-- An option that no word before it mentions is read from its own word. -/
theorem wordBehind_own {v : Bytes} {width : ℕ} (h : r.value? k = some v)
    (hun : Unmentioned k.text (r.wordsBefore k)) (hwidth : 0 < width) :
    wordBehind k.text width r.text = v.take width := by
  obtain ⟨hv, post, hwords, -⟩ := words_of_value h
  have hdrop : (optionWord (k, v)).drop (0 + k.text.length) = v := by
    rw [Nat.zero_add]
    exact List.drop_left
  rw [wordBehind_text hwords hun (strstr_optionWord k v) hwidth, hdrop, if_neg hv.ne]

/-- **`type=` and `redirect=` are read as they were written exactly** where nothing is in the way. -/
theorem wordBehind_iff {width : ℕ} (hwidth : 0 < width) :
    (wordBehind k.text width r.text = (r.value? k).getD [] ∧
      (wordBehind k.text width r.text ≠ [] → strstr k.text r.text = r.place k)) ↔
      r.KeyClear k width := by
  rw [KeyClear]
  cases hvalue : r.value? k with
  | some v =>
    obtain ⟨hv, -⟩ := words_of_value hvalue
    constructor
    · rintro ⟨hread, hown⟩
      have hun := unmentioned_of_own hvalue (hown (by rw [hread]; exact hv.ne))
      refine ⟨hun, ?_⟩
      rw [wordBehind_own hvalue hun hwidth, Option.getD_some, List.take_eq_self_iff] at hread
      exact hread
    · rintro ⟨hun, hlen⟩
      refine ⟨?_, fun _ => strstr_own hvalue hun⟩
      rw [wordBehind_own hvalue hun hwidth, List.take_of_length_le hlen, Option.getD_some]
  | none =>
    have hempty : (wordBehind k.text width r.text = (none : Option Bytes).getD [] ∧
        (wordBehind k.text width r.text ≠ [] → strstr k.text r.text = r.place k)) ↔
        wordBehind k.text width r.text = [] :=
      ⟨And.left, fun h => ⟨h, fun hne => absurd h hne⟩⟩
    rw [hempty]
    constructor
    · intro hread
      rcases exists_first k.text r.words with hun | ⟨pre, w, post, j, hsplit, hpre, hw⟩
      · exact Or.inl hun
      · rw [wordBehind_text hsplit hpre hw hwidth] at hread
        rw [List.take_eq_nil_iff, or_iff_right (Nat.ne_of_gt hwidth)] at hread
        split_ifs at hread with hend
        · -- nothing stands behind the mention, and no word follows
          have hpost : post = [] := by
            cases post with
            | nil => rfl
            | cons u post =>
              have hu : u ∈ r.words := by
                rw [hsplit]
                exact List.mem_append_right _ (List.mem_cons_of_mem _ List.mem_cons_self)
              exact absurd hread (isWord_words u hu).ne
          have hle := strstr_add_le hw
          have hlen : w.length ≤ j + k.text.length := List.drop_eq_nil_iff.1 hend
          obtain ⟨-, hprefix, -⟩ := strstr_eq_some_iff.1 hw
          have hw' : w = w.take j ++ k.text := by
            have hsame : k.text = w.drop j :=
              hprefix.eq_of_length_le (by rw [List.length_drop]; omega)
            rw [hsame, List.take_append_drop]
          have hj : (w.take j).length = j := List.length_take_of_le (by omega)
          refine Or.inr ⟨pre, w.take j, ?_, hpre, ?_⟩
          · rw [← hw', hsplit, hpost]
          · rw [← hw', hj]
            exact hw
        · exact absurd hread hend
    · rintro (hun | ⟨pre, a, hsplit, hpre, ha⟩)
      · exact wordBehind_text_none hun
      · rw [wordBehind_text hsplit hpre ha hwidth, if_pos, List.headD_nil, List.take_nil]
        rw [List.drop_eq_nil_iff, List.length_append]

end RegisterRequest

/-! ## The limit -/

section Limit

variable {v t : Bytes}

theorem takeWhile_isDigit_append (ht : ∀ c ∈ t.head?, isDigit c = false) (u : Bytes) :
    (u ++ t).takeWhile isDigit = u.takeWhile isDigit := by
  have hstop : t.takeWhile isDigit = [] := by
    cases t with
    | nil => rfl
    | cons d t => exact List.takeWhile_cons_of_neg (by rw [ht d rfl]; exact Bool.false_ne_true)
  rw [List.takeWhile_append, hstop, List.append_nil]
  split_ifs with hall
  · exact (List.takeWhile_prefix isDigit).eq_of_length hall |>.symm
  · rfl

theorem dropWhile_isSpace_word (hv : IsWord v) (t : Bytes) : (v ++ t).dropWhile isSpace = v ++ t := by
  obtain ⟨c, v, rfl⟩ := List.exists_cons_of_ne_nil hv.ne
  rw [List.cons_append, List.dropWhile_cons_of_neg]
  rw [(hv.plain c List.mem_cons_self).1]
  exact Bool.false_ne_true

theorem strtol_word (hv : IsWord v) (ht : ∀ c ∈ t.head?, isDigit c = false) :
    strtol (v ++ t) = strtol v := by
  have hself : v.dropWhile isSpace = v := by
    have := dropWhile_isSpace_word hv []
    rwa [List.append_nil] at this
  obtain ⟨c, v, rfl⟩ := List.exists_cons_of_ne_nil hv.ne
  have hdrop := dropWhile_isSpace_word hv t
  by_cases h45 : c = 45
  · subst h45
    rw [strtol, strtol, hdrop, hself]
    simp only [List.cons_append, takeWhile_isDigit_append ht]
  · by_cases h43 : c = 43
    · subst h43
      rw [strtol, strtol, hdrop, hself]
      simp only [List.cons_append, takeWhile_isDigit_append ht]
    · rw [strtol_of_unsigned (by rw [hdrop]; simpa using h45) (by rw [hdrop]; simpa using h43),
        strtol_of_unsigned (by rw [hself]; simpa using h45) (by rw [hself]; simpa using h43), hdrop,
        hself, takeWhile_isDigit_append ht]

/-- A number is read from its word. -/
theorem scanInt_word (hv : IsWord v) (ht : ∀ c ∈ t.head?, isDigit c = false) :
    scanInt (v ++ t) = (scanInt v).map fun (n, rest) => (n, rest ++ t) := by
  have hself : v.dropWhile isSpace = v := by
    have := dropWhile_isSpace_word hv []
    rwa [List.append_nil] at this
  have hatoi : atoi (v ++ t) = atoi v := by rw [atoi, atoi, strtol_word hv ht]
  rw [scanInt, scanInt, dropWhile_isSpace_word hv, hself]
  have hhead : (v ++ t).head? = v.head? := by
    obtain ⟨c, v, rfl⟩ := List.exists_cons_of_ne_nil hv.ne
    rfl
  have htail : (v ++ t).tail = v.tail ++ t := List.tail_append_of_ne_nil hv.ne
  have hu : (if (v ++ t).head? = some 45 ∨ (v ++ t).head? = some 43 then (v ++ t).tail else v ++ t) =
      (if v.head? = some 45 ∨ v.head? = some 43 then v.tail else v) ++ t := by
    rw [hhead, htail]
    split_ifs <;> rfl
  dsimp only
  rw [hu, takeWhile_isDigit_append ht, hatoi]
  generalize (if v.head? = some 45 ∨ v.head? = some 43 then v.tail else v) = u
  by_cases hdigits : u.takeWhile isDigit = []
  · rw [if_pos hdigits, if_pos hdigits, Option.map_none]
  · rw [if_neg hdigits, if_neg hdigits, Option.map_some,
      List.drop_append_of_le_length (List.takeWhile_prefix _).length_le]

theorem mem_of_scanInt {n : Int} {rest : Bytes} (h : scanInt v = some (n, rest)) :
    ∀ c ∈ rest, c ∈ v := by
  rw [scanInt] at h
  split_ifs at h
  · cases h
    intro c hc
    exact (List.dropWhile_sublist _).subset (List.mem_of_mem_tail (List.mem_of_mem_drop hc))
  · cases h
    intro c hc
    exact (List.dropWhile_sublist _).subset (List.mem_of_mem_drop hc)

/-- No number begins with another word. -/
theorem scanInt_behind {words : List Bytes}
    (h : ∀ w ∈ words, ∃ c ∈ w.head?, isDigit c = false ∧ c ≠ 43 ∧ c ≠ 45 ∧ isSpace c = false) :
    scanInt (behind words) = none := by
  cases words with
  | nil => rfl
  | cons w words =>
    obtain ⟨c, hc, hdigit, hplus, hminus, hspace⟩ := h w List.mem_cons_self
    obtain ⟨w, rfl⟩ := List.head?_eq_some_iff.1 hc
    rw [behind_cons, List.cons_append, List.cons_append, scanInt, List.dropWhile_cons_of_pos rfl,
      List.dropWhile_cons_of_neg (by rw [hspace]; exact Bool.false_ne_true)]
    simp [hdigit, hplus, hminus]

/-- **The numbers of a limit** are those of its own word. -/
theorem readLimit_word (hv : IsWord v) {words : List Bytes}
    (h : ∀ w ∈ words, ∃ c ∈ w.head?, isDigit c = false ∧ c ≠ 43 ∧ c ≠ 45 ∧ isSpace c = false) :
    readLimit (v ++ behind words) = readLimit v := by
  have ht : ∀ c ∈ (behind words).head?, isDigit c = false := by
    intro c hc
    rw [head?_behind c hc]
    rfl
  rw [readLimit, readLimit, scanInt_word hv ht]
  cases hscan : scanInt v with
  | none => rfl
  | some p =>
    obtain ⟨n, rest⟩ := p
    have hplain : ∀ c ∈ rest, isSpace c = false ∧ c ≠ 0 := fun c hc =>
      hv.plain c (mem_of_scanInt hscan c hc)
    simp only [Option.map_some, Option.bind_some]
    cases rest with
    | nil =>
      have hcomma : (behind words).head? ≠ some 44 := by
        intro hc
        exact absurd (head?_behind _ hc) (by decide)
      have hnil : ([] : Bytes).head? ≠ some 44 := by simp
      rw [List.nil_append, if_neg hcomma, if_neg hnil]
    | cons c rest =>
      rw [List.cons_append, List.head?_cons, List.head?_cons, List.tail_cons, List.tail_cons]
      have hwindow : (scanInt (rest ++ behind words)).map (·.1) = (scanInt rest).map (·.1) := by
        by_cases hrest : rest = []
        · rw [hrest, List.nil_append, scanInt_behind h]
          rfl
        · rw [scanInt_word ⟨hrest, fun c hc => hplain c (List.mem_cons_of_mem _ hc)⟩ ht,
            Option.map_map]
          rfl
      rw [hwindow]

theorem readLimit_eq_none_iff {s : Bytes} :
    readLimit s = none ↔ ¬ ∃ n rest, scanInt s = some (n, rest) ∧ 0 < n := by
  rw [readLimit]
  cases scanInt s with
  | none => simp
  | some p =>
    obtain ⟨n, rest⟩ := p
    simp

end Limit

namespace RegisterRequest

variable {r : RegisterRequest}

theorem isWord_value {k : OptionKey} {v : Bytes} (h : r.value? k = some v) : IsWord v :=
  (words_of_value h).1

/-- A limit that no word before it mentions is read from its own word. -/
theorem scanRl_own {v : Bytes} (h : r.value? .rl = some v)
    (hun : Unmentioned (OptionKey.text .rl) (r.wordsBefore .rl)) : scanRl r.text = readLimit v := by
  obtain ⟨hv, post, hwords, hpost⟩ := words_of_value h
  have hplace := strstr_own h hun
  rw [place, h, Option.map_some] at hplace
  have hdrop := drop_behind (strstr_optionWord .rl v) (r.wordsBefore .rl) (post.map optionWord)
  have hlen : (OptionKey.text .rl).length = 3 := by decide
  rw [← hwords, behind_words, hlen, Nat.add_right_comm, Nat.add_right_comm, List.drop_succ_cons,
    Nat.add_zero] at hdrop
  have hvalue : (optionWord (.rl, v)).drop (0 + 3) = v := List.drop_left' hlen
  have hbind : scanRl r.text = (strstr (OptionKey.text .rl) r.text).bind fun i =>
    readLimit (r.text.drop (i + 3)) := rfl
  rw [hbind, hplace, Option.bind_some, hdrop, hvalue, readLimit_word hv]
  -- the words behind it begin with letters
  intro w hw
  obtain ⟨o, ho, rfl⟩ := List.mem_map.1 hw
  obtain ⟨-, hne, -, hhead⟩ := o.1.text_facts
  obtain ⟨c, u, hcu⟩ := List.exists_cons_of_ne_nil hne
  refine ⟨c, ?_, hhead c (by rw [hcu]; rfl)⟩
  rw [optionWord, hcu]
  rfl

theorem mentionsLimit_iff : r.MentionsLimit ↔ scanRl r.text ≠ none := by
  have hbind : scanRl r.text = (strstr (OptionKey.text .rl) r.text).bind fun i =>
    readLimit (r.text.drop (i + 3)) := rfl
  rw [MentionsLimit, hbind]
  cases strstr (OptionKey.text .rl) r.text with
  | none => simp
  | some i =>
    rw [Option.bind_some, Ne, readLimit_eq_none_iff, not_not]
    constructor
    · rintro ⟨i', n, rest, heq, hscan, hpos⟩
      cases heq
      exact ⟨n, rest, hscan, hpos⟩
    · rintro ⟨n, rest, hscan, hpos⟩
      exact ⟨i, n, rest, rfl, hscan, hpos⟩

/-- **`rl=` is read as it was written exactly** where nothing is in the way, or nothing is asked for. -/
theorem scanRl_iff : (scanRl r.text = r.limit ∧
      (scanRl r.text ≠ none → strstr (OptionKey.text .rl) r.text = r.place .rl)) ↔
    (r.value? .rl ≠ none ∧ Unmentioned (OptionKey.text .rl) (r.wordsBefore .rl)) ∨
      (r.limit = none ∧ ¬ r.MentionsLimit) := by
  rw [mentionsLimit_iff, not_not]
  constructor
  · rintro ⟨hread, hown⟩
    by_cases hnone : scanRl r.text = none
    · exact Or.inr ⟨hread ▸ hnone, hnone⟩
    · have hvalue : r.value? .rl ≠ none := by
        intro hvalue
        rw [hread, limit, hvalue] at hnone
        exact hnone rfl
      obtain ⟨v, hv⟩ := Option.ne_none_iff_exists'.1 hvalue
      exact Or.inl ⟨hvalue, unmentioned_of_own hv (hown hnone)⟩
  · rintro (⟨hvalue, hun⟩ | ⟨hnone, hread⟩)
    · obtain ⟨v, hv⟩ := Option.ne_none_iff_exists'.1 hvalue
      refine ⟨?_, fun _ => strstr_own hv hun⟩
      rw [scanRl_own hv hun, limit, hv]
      rfl
    · exact ⟨hread.trans hnone.symm, fun h => absurd hread h⟩

/-- **`proxy=` is read as it was written exactly** where it is the first option. -/
theorem proxyUrl_iff : (parseRegister r.text).proxyUrl = (r.value? .proxy).getD [] ↔
    ∀ v, r.value? .proxy = some v → r.options.head? = some (.proxy, v) ∧ v.length ≤ 255 := by
  rw [proxyUrl_text]
  have hvalue : ∀ v, r.options.head? = some (.proxy, v) → r.value? .proxy = some v := by
    intro v hv
    obtain ⟨os, hos⟩ := List.head?_eq_some_iff.1 hv
    rw [value?, hos, List.lookup_cons_self]
  split
  · rename_i v hv
    rw [hvalue v hv, hv, Option.getD_some, List.take_eq_self_iff]
    constructor
    · rintro hlen v' hv'
      cases hv'
      exact ⟨rfl, hlen⟩
    · exact fun h => (h v rfl).2
  · rename_i hother
    constructor
    · intro hread v hv
      rw [hv, Option.getD_some] at hread
      exact absurd hread.symm (isWord_value hv).ne
    · intro h
      cases hnone : r.value? .proxy with
      | none => rfl
      | some v => exact absurd (h v hnone).1 (hother v)

theorem isRedirect_iff (htype : (parseRegister r.text).typeStr = (r.value? .type).getD [])
    (hredirect : (parseRegister r.text).redirectUrl = (r.value? .redirect).getD []) :
    (parseRegister r.text).isRedirect = true ↔ r.IsRedirect := by
  rw [RegisterFrame.isRedirect, htype, hredirect, Bool.or_eq_true, IsRedirect]
  refine or_congr ?_ ?_
  · cases hvalue : r.value? .redirect with
    | none => simp
    | some v => simpa using (isWord_value hvalue).ne
  · cases r.value? .type with
    | none => exact iff_of_false (by rw [ascii_eq rfl]; decide) (by simp)
    | some v => simp

/-- **The words and options of a frame are read as they were written exactly** where they do not get in
the way of each other. -/
theorem extracts_iff (r : RegisterRequest) : r.Extracts ↔ r.Clear := by
  have htypes : _ ↔ r.KeyClear .type 15 := wordBehind_iff (by decide)
  have hredirects : _ ↔ r.KeyClear .redirect 255 := wordBehind_iff (by decide)
  have hwords : (scanWords [63, 255, 15, 255, 15] r.text).1 = r.tokens := by rw [scanWords_text]
  constructor
  · intro h
    have hred := isRedirect_iff h.typeStr h.redirectUrl
    refine ⟨proxyUrl_iff.1 h.proxyUrl, htypes.1 ⟨h.typeStr, h.own_type⟩,
      hredirects.1 ⟨h.redirectUrl, h.own_redirect⟩, fun hr => ?_, fun hr => scanRl_iff.1 ?_⟩
    · rw [← h.limit, RegisterFrame.limit, if_pos (hred.2 hr)]
    · have hlimit : (parseRegister r.text).limit = scanRl r.text := if_neg fun hr' => hr (hred.1 hr')
      exact ⟨hlimit ▸ h.limit, fun hne => h.own_limit (hlimit ▸ hne)⟩
  · intro h
    obtain ⟨htype, hown_type⟩ := htypes.2 h.type
    obtain ⟨hredirect, hown_redirect⟩ := hredirects.2 h.redirect
    have hred := isRedirect_iff htype hredirect
    have hlimit : (parseRegister r.text).limit = r.limit ∧ ((parseRegister r.text).limit ≠ none →
        strstr (OptionKey.text .rl) r.text = r.place .rl) := by
      by_cases hr : r.IsRedirect
      · have hnone : (parseRegister r.text).limit = none := if_pos (hred.2 hr)
        exact ⟨hnone.trans (h.noLimit hr).symm, fun hne => absurd hnone hne⟩
      · have hscan : (parseRegister r.text).limit = scanRl r.text :=
          if_neg fun hr' => hr (hred.1 hr')
        rw [hscan]
        exact scanRl_iff.2 (h.rl hr)
    exact {
      name := congrArg (·.getD 0 []) hwords
      pathPrefix := congrArg (·.getD 1 []) hwords
      method := congrArg (·.getD 2 []) hwords
      host := congrArg (·.getD 3 []) hwords
      mode := congrArg (·.getD 4 []) hwords
      proxyUrl := proxyUrl_iff.2 h.proxy
      typeStr := htype
      redirectUrl := hredirect
      limit := hlimit.1
      own_type := hown_type
      own_redirect := hown_redirect
      own_limit := hlimit.2 }

/-- A frame for one stream, with `type=` before `proxy=`. -/
def streamRequest : RegisterRequest where
  name := ascii "app"
  pathPrefix := ascii "/live"
  method := ascii "GET"
  host := ascii "example.com"
  mode := ascii "test"
  options := [(.type, ascii "stream"), (.proxy, ascii "http://b")]
  fits_name := ⟨⟨by decide, by rw [ascii_eq rfl]; decide⟩, by decide⟩
  fits_prefix := ⟨⟨by decide, by rw [ascii_eq rfl]; decide⟩, by decide⟩
  fits_method := ⟨⟨by decide, by rw [ascii_eq rfl]; decide⟩, by decide⟩
  fits_host := ⟨⟨by decide, by rw [ascii_eq rfl]; decide⟩, by decide⟩
  fits_mode := ⟨⟨by decide, by rw [ascii_eq rfl]; decide⟩, by decide⟩
  keys := by decide
  values o ho := by
    rw [List.mem_cons, List.mem_singleton] at ho
    rcases ho with rfl | rfl
    · exact ⟨by decide, by rw [ascii_eq rfl]; decide⟩
    · exact ⟨by decide, by rw [ascii_eq rfl]; decide⟩

/-- The target of that frame is not read. -/
theorem not_extracts : ¬ ∀ r : RegisterRequest, r.Extracts := by
  intro h
  have hproxy := proxyUrl_iff.1 (h streamRequest).proxyUrl (ascii "http://b") rfl
  cases hproxy.1

end RegisterRequest

end Gateway
end Arws
