import Arws.Gateway.AdminQuery

/-!
# The listing of the routes and its buffer

`arws_config_dump_routes` is given a buffer and its size.  The first line is formatted without a look at what
it returns; the loops behind it end at a line that does not fit, of which the beginning stays in the buffer.

* `dumpLines_fitting` — what a loop does from a place inside of the buffer.
* `dumpRight_iff` — the listing respects its buffer exactly if the first line fits, and it is the text in the
  buffer exactly if no beginning of a line is left behind it.
* `not_dumpRight` — with the size of a pointer it does not.
-/

set_option autoImplicit false

namespace Arws
namespace Gateway

open CString Config FormatBuffer

/-! ## What is to hold -/

/-- The sizes that a loop of `arws_config_dump_routes` passes to `snprintf`, before they are converted. -/
def lineSizes (size : Int) : ℕ → List Bytes → List Int
  | _, [] => []
  | used, line :: lines => (size - used) ::
      if size ≤ used + line.length then [] else lineSizes size (used + line.length) lines

/-- The tables of the listing. -/
def routeTables (s : ArwsConfig) : List (List Bytes) := [proxyLines s, streamLines s, overrideLines s]

/-- The sizes in the loops over the tables. -/
def tableSizes (size : Int) : Filled → List (List Bytes) → List Int
  | _, [] => []
  | resp, table :: tables =>
    lineSizes size resp.2 table ++ tableSizes size (dumpLines size resp table) tables

/-- All the sizes that `arws_config_dump_routes` passes to `snprintf`. -/
def dumpSizes (s : ArwsConfig) (size : Int) : List Int :=
  size :: tableSizes size (snprintf (toSize size) (globalModeLine s)) (routeTables s)

/-- **The buffer is respected**: nothing is written behind it, what is returned is below its size, and the
sizes are positive. -/
structure DumpInside (s : ArwsConfig) (size : ℕ) : Prop where
  inside : ∀ i, size ≤ i → (arwsConfigDumpRoutes s size).1 i = none
  below : (arwsConfigDumpRoutes s size).2 < size
  sizes : ∀ n ∈ dumpSizes s size, 0 < n

/-- And what is returned is the length of the text in the buffer. -/
structure DumpRight (s : ArwsConfig) (size : ℕ) : Prop extends DumpInside s size where
  text : ∃ text : Bytes, Holds (arwsConfigDumpRoutes s size).1 text ∧
    text.length = (arwsConfigDumpRoutes s size).2
  ended : (arwsConfigDumpRoutes s size).1 (arwsConfigDumpRoutes s size).2 = some 0

/-- The lines that fit behind so many bytes, up to the first that does not. -/
def linesFitting (size : ℕ) : ℕ → List Bytes → List Bytes
  | _, [] => []
  | used, line :: lines =>
    if used + line.length < size then line :: linesFitting size (used + line.length) lines else []

/-- No beginning of a line is left behind the lines of the tables: in the last table that has any, all
lines fit, or there is no room for the first byte of the one that does not. -/
def NoCutLine (size : ℕ) : ℕ → List (List Bytes) → Prop
  | _, [] => True
  | used, table :: tables =>
    let behind := used + (linesFitting size used table).flatten.length
    if tables.flatten = [] then linesFitting size used table = table ∨ behind = size - 1
    else NoCutLine size behind tables

instance decidableNoCutLine (size : ℕ) : (used : ℕ) → (tables : List (List Bytes)) →
    Decidable (NoCutLine size used tables)
  | _, [] => isTrue trivial
  | used, table :: tables =>
    have := decidableNoCutLine size (used + (linesFitting size used table).flatten.length) tables
    inferInstanceAs (Decidable (if tables.flatten = [] then linesFitting size used table = table ∨
        used + (linesFitting size used table).flatten.length = size - 1
      else NoCutLine size (used + (linesFitting size used table).flatten.length) tables))

/-! ## One loop -/

/-- A line begins with a byte that is no terminator. -/
def Begins (line : Bytes) : Prop := ∃ c rest, line = c :: rest ∧ c ≠ 0

variable {size : ℕ} {buf : Buffer UInt8} {t line : Bytes} {lines : List Bytes}

/-- The first byte of a line that is cut is there, if there is room for it. -/
theorem format_begins (buf : Buffer UInt8) (used : ℕ) {room : ℕ} (hroom : 2 ≤ room)
    (hline : Begins line) : format 0 buf used room line used ≠ some 0 := by
  obtain ⟨c, rest, rfl, hc⟩ := hline
  obtain ⟨k, rfl⟩ := Nat.exists_eq_add_of_le hroom
  have hstored : store buf used ((c :: rest).take (2 + k - 1) ++ [0]) (used + 0) = _ :=
    store_inside (by simp)
  rw [Nat.add_zero, show 2 + k - 1 = k + 1 by omega, List.take_succ_cons] at hstored
  rw [format, if_neg (by omega), show 2 + k - 1 = k + 1 by omega, List.take_succ_cons, hstored]
  exact fun h => hc (Option.some.inj h)

/-- The state of the buffer between the loops: the text so far, and nothing behind the buffer. -/
structure Filling (size : ℕ) (buf : Buffer UInt8) (t : Bytes) : Prop where
  holds : Holds buf t
  below : t.length < size
  inside : ∀ i, size ≤ i → buf i = none

/-- A line that fits is added, and ended. -/
theorem Filling.fits (h : Filling size buf t) (hfits : t.length + line.length < size) :
    Filling size (format 0 buf t.length (size - t.length) line) (t ++ line) ∧
      format 0 buf t.length (size - t.length) line (t ++ line).length = some 0 := by
  have htake : line.take (size - t.length - 1) = line := List.take_of_length_le (by omega)
  have hholds := h.holds.format 0 (size - t.length) line
  have hended := format_end 0 buf t.length (show size - t.length ≠ 0 by omega) line
  rw [htake] at hholds hended
  rw [← List.length_append] at hended hfits
  refine ⟨⟨hholds, hfits, fun i hi => ?_⟩, hended⟩
  have hlt := h.below
  rw [format_outside (Or.inr (by omega)), h.inside i hi]

/-- A line that does not fit is cut, and what is left of it is behind the text. -/
theorem Filling.cut (h : Filling size buf t) (hline : Begins line) :
    Filling size (format 0 buf t.length (size - t.length) line) t ∧
      (format 0 buf t.length (size - t.length) line t.length = some 0 ↔ t.length = size - 1) := by
  have hlt := h.below
  refine ⟨⟨h.holds.congr fun i hi => format_outside (Or.inl hi), hlt, fun i hi => ?_⟩, ?_⟩
  · rw [format_outside (Or.inr (by omega)), h.inside i hi]
  · constructor
    · intro hended
      by_contra hroom
      exact format_begins buf t.length (by omega) hline hended
    · intro hlast
      have hroom : size - t.length = 1 := by omega
      rw [hroom]
      exact format_end 0 buf t.length (by decide) line

/-- **What a loop does**: it adds the lines that fit, and leaves the beginning of one that does not. -/
theorem dumpLines_fitting (hint : size < 2 ^ 31) (h : Filling size buf t)
    (hlines : ∀ line ∈ lines, Begins line) :
    ∃ buf', dumpLines size (buf, t.length) lines =
        (buf', (t ++ (linesFitting size t.length lines).flatten).length) ∧
      Filling size buf' (t ++ (linesFitting size t.length lines).flatten) ∧
      (lines = [] → buf' = buf) ∧
      (lines ≠ [] → (buf' (t ++ (linesFitting size t.length lines).flatten).length = some 0 ↔
        linesFitting size t.length lines = lines ∨
          (t ++ (linesFitting size t.length lines).flatten).length = size - 1)) := by
  induction lines generalizing buf t with
  | nil =>
    rw [linesFitting, List.flatten_nil, List.append_nil]
    exact ⟨buf, rfl, h, fun _ => rfl, fun hne => absurd rfl hne⟩
  | cons line lines ih =>
    rw [dumpLines, toSize_sub (by omega) h.below.le, linesFitting]
    by_cases hfits : t.length + line.length < size
    · obtain ⟨hfilling, hended⟩ := h.fits hfits
      obtain ⟨buf', hdump, hfilling', hnil, hcut⟩ :=
        ih hfilling fun l hl => hlines l (List.mem_cons_of_mem _ hl)
      rw [if_pos hfits, if_neg (by omega), ← List.length_append, List.flatten_cons, ← List.append_assoc]
      refine ⟨buf', hdump, hfilling', fun h => absurd h (List.cons_ne_nil _ _), fun _ => ?_⟩
      rw [List.cons_inj_right]
      by_cases hlast : lines = []
      · subst hlast
        rw [hnil rfl, linesFitting, List.flatten_nil, List.append_nil]
        exact iff_of_true hended (Or.inl rfl)
      · exact hcut hlast
    · obtain ⟨hfilling, hended⟩ := h.cut (hlines line List.mem_cons_self)
      rw [if_neg hfits, if_pos (by omega), List.flatten_nil, List.append_nil]
      refine ⟨_, rfl, hfilling, fun h => absurd h (List.cons_ne_nil _ _), fun _ => ?_⟩
      rw [hended, or_iff_right (List.cons_ne_nil _ _).symm]

/-- The sizes in a loop are positive, as long as it starts inside of the buffer. -/
theorem lineSizes_pos {used : ℕ} (h : used < size) (lines : List Bytes) :
    ∀ n ∈ lineSizes size used lines, 0 < n := by
  induction lines generalizing used with
  | nil => exact fun n hn => by cases hn
  | cons line lines ih =>
    rw [lineSizes]
    intro n hn
    rcases List.mem_cons.1 hn with rfl | hn
    · omega
    · split_ifs at hn with hstop
      · cases hn
      · exact ih (by omega) n hn

/-! ## All of them -/

/-- The tables, one behind another. -/
def dumpTables (size : Int) : Filled → List (List Bytes) → Filled
  | resp, [] => resp
  | resp, table :: tables => dumpTables size (dumpLines size resp table) tables

theorem arwsConfigDumpRoutes_eq (s : ArwsConfig) (hpos : 0 < size) (hint : size < 2 ^ 31) :
    arwsConfigDumpRoutes s size = dumpTables size (snprintf size (globalModeLine s)) (routeTables s) := by
  rw [arwsConfigDumpRoutes, if_neg (by omega), toSize_natCast (by omega)]
  rfl

/-- Tables without lines leave all as it is. -/
theorem dumpTables_of_flatten {tables : List (List Bytes)} (h : tables.flatten = []) (size : Int)
    (resp : Filled) : dumpTables size resp tables = resp := by
  induction tables with
  | nil => rfl
  | cons table tables ih =>
    rw [List.flatten_cons, List.append_eq_nil_iff] at h
    rw [dumpTables, h.1, dumpLines, ih h.2]

/-- **What the loops do**: the text ends in the buffer exactly if no line that is cut is left behind it. -/
theorem dumpTables_spec (hint : size < 2 ^ 31) (tables : List (List Bytes)) (h : Filling size buf t)
    (hended : buf t.length = some 0 ∨ tables.flatten ≠ [])
    (hlines : ∀ table ∈ tables, ∀ line ∈ table, Begins line) :
    ∃ buf' t', dumpTables size (buf, t.length) tables = (buf', t'.length) ∧ Filling size buf' t' ∧
      (buf' t'.length = some 0 ↔ NoCutLine size t.length tables) := by
  induction tables generalizing buf t with
  | nil =>
    refine ⟨buf, t, rfl, h, iff_of_true ?_ trivial⟩
    exact hended.resolve_right fun hne => hne rfl
  | cons table tables ih =>
    obtain ⟨buf', hdump, hfilling, hnil, hcut⟩ :=
      dumpLines_fitting hint h (hlines table List.mem_cons_self)
    rw [dumpTables, hdump, NoCutLine]
    simp only [← List.length_append]
    by_cases hlast : tables.flatten = []
    · -- this is the last table that may have lines
      rw [dumpTables_of_flatten hlast, if_pos hlast]
      refine ⟨buf', _, rfl, hfilling, ?_⟩
      by_cases htable : table = []
      · subst htable
        rw [List.flatten_cons, List.nil_append] at hended
        rw [hnil rfl, linesFitting, List.flatten_nil, List.append_nil]
        exact iff_of_true (hended.resolve_right fun hne => hne hlast) (Or.inl rfl)
      · exact hcut htable
    · rw [if_neg hlast]
      exact ih hfilling (Or.inr hlast) fun table' h' => hlines table' (List.mem_cons_of_mem _ h')

/-- The sizes in the loops are positive. -/
theorem tableSizes_pos (hint : size < 2 ^ 31) (tables : List (List Bytes)) (h : Filling size buf t)
    (hlines : ∀ table ∈ tables, ∀ line ∈ table, Begins line) :
    ∀ n ∈ tableSizes size (buf, t.length) tables, 0 < n := by
  induction tables generalizing buf t with
  | nil => exact fun n hn => by cases hn
  | cons table tables ih =>
    obtain ⟨buf', hdump, hfilling, -⟩ := dumpLines_fitting hint h (hlines table List.mem_cons_self)
    rw [tableSizes, hdump]
    intro n hn
    rcases List.mem_append.1 hn with hn | hn
    · exact lineSizes_pos h.below table n hn
    · exact ih hfilling (fun table' h' => hlines table' (List.mem_cons_of_mem _ h')) n hn

theorem begins_append {c : UInt8} {rest line : Bytes} (h : line = c :: rest) (hc : c ≠ 0)
    (more : Bytes) : Begins (line ++ more) := ⟨c, rest ++ more, by rw [h, List.cons_append], hc⟩

/-- Every line of the listing begins with the name of its table. -/
theorem begins_of_mem (s : ArwsConfig) : ∀ table ∈ routeTables s, ∀ line ∈ table, Begins line := by
  have hproxy : ascii "proxy   " = 112 :: ascii "roxy   " := rfl
  have hstream : ascii "stream  " = 115 :: ascii "tream  " := rfl
  have hoverride : ascii "override host=" = 111 :: ascii "verride host=" := rfl
  intro table htable line hline
  simp only [routeTables, List.mem_cons, List.not_mem_nil, or_false] at htable
  rcases htable with rfl | rfl | rfl
  · obtain ⟨r, -, rfl⟩ := List.mem_map.1 hline
    simp only [routeLine, List.append_assoc]
    exact begins_append hproxy (by decide) _
  · obtain ⟨r, -, rfl⟩ := List.mem_map.1 hline
    simp only [routeLine, List.append_assoc]
    exact begins_append hstream (by decide) _
  · obtain ⟨o, -, rfl⟩ := List.mem_map.1 hline
    simp only [overrideLine, List.append_assoc]
    exact begins_append hoverride (by decide) _

/-- The buffer behind the first line, if it fits. -/
theorem filling_globalMode {s : ArwsConfig} (hfirst : (globalModeLine s).length < size) :
    Filling size (snprintf size (globalModeLine s)).1 (globalModeLine s) ∧
      (snprintf size (globalModeLine s)).1 (globalModeLine s).length = some 0 := by
  have hstart : Filling size fresh [] := ⟨holds_nil _, by rw [List.length_nil]; omega, fun _ _ => rfl⟩
  have hroom : ([] : Bytes).length + (globalModeLine s).length < size := by
    rwa [List.length_nil, Nat.zero_add]
  have hfits := hstart.fits hroom
  rwa [List.nil_append, List.length_nil, Nat.sub_zero] at hfits

/-- **With a first line that fits**, the buffer is respected, and what is returned is the length of a text
in it; the text ends there exactly if no line that is cut is left behind it. -/
theorem dumpRoutes_spec {s : ArwsConfig} (hint : size < 2 ^ 31)
    (hfirst : (globalModeLine s).length < size) :
    DumpInside s size ∧ (DumpRight s size ↔ NoCutLine size (globalModeLine s).length (routeTables s)) := by
  obtain ⟨hfilling, hended⟩ := filling_globalMode hfirst
  obtain ⟨buf, t, hdump, hfilled, hcut⟩ :=
    dumpTables_spec hint (routeTables s) hfilling (Or.inl hended) (begins_of_mem s)
  have heq : arwsConfigDumpRoutes s size = (buf, t.length) :=
    (arwsConfigDumpRoutes_eq s (Nat.zero_lt_of_lt hfirst) hint).trans hdump
  have hinside : DumpInside s size := by
    refine ⟨?_, ?_, fun n hn => ?_⟩
    · rw [heq]
      exact hfilled.inside
    · rw [heq]
      exact hfilled.below
    · rw [dumpSizes, toSize_natCast (by omega)] at hn
      rcases List.mem_cons.1 hn with rfl | hn
      · omega
      · exact tableSizes_pos hint (routeTables s) hfilling (begins_of_mem s) n hn
  refine ⟨hinside, hcut.symm.trans ?_ |>.symm⟩
  constructor
  · exact fun hnul => ⟨hinside, ⟨t, by rw [heq]; exact hfilled.holds, by rw [heq]⟩, by rwa [heq]⟩
  · intro hright
    have hnul := hright.ended
    rwa [heq] at hnul

/-- A first line that does not fit is counted, and nothing takes it back. -/
theorem not_dumpInside {s : ArwsConfig} (hint : size < 2 ^ 31) (hpos : 0 < size)
    (hfirst : size ≤ (globalModeLine s).length) : ¬ DumpInside s size := by
  intro h
  have hbelow := h.below
  rw [arwsConfigDumpRoutes_eq s hpos hint] at hbelow
  obtain ⟨hle₁, -⟩ := dumpLines_frame size (snprintf size (globalModeLine s)) (proxyLines s)
  obtain ⟨hle₂, -⟩ := dumpLines_frame size
    (dumpLines size (snprintf size (globalModeLine s)) (proxyLines s)) (streamLines s)
  obtain ⟨hle₃, -⟩ := dumpLines_frame size
    (dumpLines size (dumpLines size (snprintf size (globalModeLine s)) (proxyLines s)) (streamLines s))
    (overrideLines s)
  have hused : (snprintf size (globalModeLine s)).2 = (globalModeLine s).length := rfl
  simp only [routeTables, dumpTables] at hbelow
  omega

/-- **The listing respects its buffer** exactly if the first line fits, and what is returned is the length
of the text in it exactly if no beginning of a line is left behind the lines, besides. -/
theorem dumpRight_iff (s : ArwsConfig) (size : ℕ) (hpos : 0 < size) (hint : size < 2 ^ 31) :
    (DumpInside s size ↔ (globalModeLine s).length < size) ∧
      (DumpRight s size ↔ (globalModeLine s).length < size ∧
        NoCutLine size (globalModeLine s).length (routeTables s)) := by
  have hinside : DumpInside s size → (globalModeLine s).length < size := by
    intro h
    by_contra hfirst
    exact not_dumpInside hint hpos (Nat.le_of_not_lt hfirst) h
  constructor
  · exact ⟨hinside, fun hfirst => (dumpRoutes_spec hint hfirst).1⟩
  · constructor
    · intro h
      have hfirst := hinside h.toDumpInside
      exact ⟨hfirst, (dumpRoutes_spec hint hfirst).2.1 h⟩
    · exact fun ⟨hfirst, hcut⟩ => (dumpRoutes_spec hint hfirst).2.2 hcut

theorem length_globalModeLine_initial : (globalModeLine ArwsConfig.initial).length = 23 := by
  rw [globalModeLine, List.length_append, List.length_append, length_ascii rfl,
    show ArwsConfig.initial.globalMode = ascii "production" from rfl, length_ascii rfl]
  rfl

/-- A configuration with lines in each of the tables. -/
private def listed : ArwsConfig :=
  { ArwsConfig.initial with
    proxyRoutes := [⟨ascii "a.com", ascii "/api", ascii "http://10.0.0.2:80"⟩,
      ⟨ascii "b.com", ascii "/", ascii "http://10.0.0.3:80"⟩]
    streamRoutes := [⟨ascii "a.com", ascii "/live", ascii "http://10.0.0.4:80"⟩]
    overrides := [⟨ascii "a.com", ascii "/old", ascii "maintenance", true⟩] }

/-- All lines fit the buffer of a page; a smaller one is respected, and the beginning of a line is left
behind the text in it. -/
theorem dumpRight_listed : DumpRight listed 4096 ∧ DumpInside listed 280 ∧ ¬ DumpRight listed 280 := by
  obtain ⟨-, hlarge⟩ := dumpRight_iff listed 4096 (by decide) (by decide)
  obtain ⟨hinside, hsmall⟩ := dumpRight_iff listed 280 (by decide) (by decide)
  exact ⟨hlarge.2 ⟨by decide +kernel, by decide +kernel⟩, hinside.2 (by decide +kernel),
    fun h => absurd (hsmall.1 h).2 (by decide +kernel)⟩

/-- **With the size of a pointer**, as it is given for the answer to `routes`, the listing runs over. -/
theorem not_dumpRight : ¬ ∀ (s : ArwsConfig) (size : ℕ), 0 < size → size < 2 ^ 31 → DumpRight s size := by
  intro h
  exact not_dumpInside (by decide) (by decide) (by rw [length_globalModeLine_initial]; decide)
    (h ArwsConfig.initial sizeOfPointer (by decide) (by decide)).toDumpInside

end Gateway
end Arws
