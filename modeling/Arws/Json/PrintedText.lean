import Arws.Json.Printer

/-!
# What the JSON printer prints

`render` is the text of an item, and the printer prints it: into a buffer that grows as `ensure` lets it, or
into one that does not.  Each step of the printer is described by what it puts behind the text that stands
there and by how many bytes behind that it asks room for (`Prints`); `Prints.bind` puts two steps together.

* `printValue_prints` — a value, from every buffer.
* `print_eq` — `print` succeeds exactly if the item is not nested too deeply, its numbers fit into the
  temporary buffer of `print_number` and the text fits into an `int`.  It touches no byte that it has not
  made room for, in any case.
-/

set_option autoImplicit false

namespace Arws
namespace Json

open CString Checked

variable {D : Type}

/-! ## The text of an item -/

mutual

/-- How many arrays and objects stand in one another. -/
def Item.depth : Item D → ℕ
  | .array child => depthOfElements child + 1
  | .object child => depthOfMembers child + 1
  | .null | .false | .true | .number _ | .string _ | .raw _ => 0

def depthOfElements : List (Item D) → ℕ
  | [] => 0
  | element :: rest => max element.depth (depthOfElements rest)

def depthOfMembers : List (Bytes × Item D) → ℕ
  | [] => 0
  | (_, value) :: rest => max value.depth (depthOfMembers rest)

end

mutual

/-- The numbers of an item fit into the temporary buffer of `print_number`. -/
def Item.NumbersFit (ops : Doubles D) : Item D → Prop
  | .number d => (numberText ops d).length ≤ 25
  | .array child => NumbersFitElements ops child
  | .object child => NumbersFitMembers ops child
  | .null | .false | .true | .string _ | .raw _ => True

def NumbersFitElements (ops : Doubles D) : List (Item D) → Prop
  | [] => True
  | element :: rest => element.NumbersFit ops ∧ NumbersFitElements ops rest

def NumbersFitMembers (ops : Doubles D) : List (Bytes × Item D) → Prop
  | [] => True
  | (_, value) :: rest => value.NumbersFit ops ∧ NumbersFitMembers ops rest

end

/-- A string between its quotes. -/
def quoted (s : Bytes) : Bytes := 34 :: (cstr s).flatMap printedByte ++ [34]

mutual

/-- The text of an item at a depth. -/
def render (ops : Doubles D) (format : Bool) : Item D → ℕ → Bytes
  | .null, _ => ascii "null"
  | .false, _ => ascii "false"
  | .true, _ => ascii "true"
  | .number d, _ => numberText ops d
  | .raw s, _ => cstr s
  | .string s, _ => quoted s
  | .array child, depth => [91] ++ (renderElements ops format child (depth + 1) ++ [93])
  | .object child, depth =>
    opening format ++ (renderMembers ops format child (depth + 1) ++ (indent format depth ++ [125]))

def renderElements (ops : Doubles D) (format : Bool) : List (Item D) → ℕ → Bytes
  | [], _ => []
  | element :: rest, depth =>
    render ops format element depth ++
      ((if rest.isEmpty then [] else comma format) ++ renderElements ops format rest depth)

def renderMembers (ops : Doubles D) (format : Bool) : List (Bytes × Item D) → ℕ → Bytes
  | [], _ => []
  | (name, value) :: rest, depth =>
    indent format depth ++ (quoted name ++ (colon format ++ (render ops format value depth ++
      (memberEnd format rest.isEmpty ++ renderMembers ops format rest depth))))

end

/-! ## Steps of the printer -/

namespace PrintBuffer

/-- How far the area may grow. -/
def limit (p : PrintBuffer) : ℕ := if p.noalloc then p.length else intMax

/-- The offset stands inside of the area. -/
structure Valid (p : PrintBuffer) : Prop where
  lt : p.text.length < p.length
  le : p.length ≤ intMax

end PrintBuffer

/-- What a step has made of the buffer: it has put a text behind the one that stood there. -/
structure Printed (depth : ℕ) (s : Bytes) (p p' : PrintBuffer) : Prop where
  text : p'.text = p.text ++ s
  depth : p'.depth = depth
  limit : p'.limit = p.limit
  format : p'.format = p.format
  valid : p'.Valid

/-- **A step of the printer**, which asks for room for its text and some bytes behind it, and may have other
reasons to give up. -/
structure Prints (ok : Prop) (room depth : ℕ) (s : Bytes) (p : PrintBuffer) (x : Except Stop PrintBuffer) :
    Prop where
  prints : ok → p.text.length + s.length + room ≤ p.limit → ∃ p', x = .ok p' ∧ Printed depth s p p'
  refuses : ¬ (ok ∧ p.text.length + s.length + room ≤ p.limit) → x = .error .refused

variable {ok ok' : Prop} {room room' depth depth' : ℕ} {s s' : Bytes} {p : PrintBuffer}
  {x : Except Stop PrintBuffer}

theorem Printed.trans {p' p'' : PrintBuffer} (h : Printed depth s p p') (h' : Printed depth' s' p' p'') :
    Printed depth' (s ++ s') p p'' where
  text := by rw [h'.text, h.text, List.append_assoc]
  depth := h'.depth
  limit := h'.limit.trans h.limit
  format := h'.format.trans h.format
  valid := h'.valid

/-- **Two steps**: the first asks for no more room than the second. -/
theorem Prints.bind (ok' : Prop) {f : PrintBuffer → Except Stop PrintBuffer} (h : Prints ok room depth s p x)
    (hroom : room ≤ s'.length + room')
    (hf : ∀ p', Printed depth s p p' → Prints ok' room' depth' s' p' (f p')) :
    Prints (ok ∧ ok') room' depth' (s ++ s') p (x >>= f) := by
  have hsize : ∀ p', Printed depth s p p' → (p'.text.length + s'.length + room' ≤ p'.limit ↔
      p.text.length + (s ++ s').length + room' ≤ p.limit) := by
    intro p' hp'
    rw [hp'.limit, hp'.text, List.length_append, List.length_append]
    omega
  constructor
  · rintro ⟨hok, hok'⟩ hle
    have hfirst : p.text.length + s.length + room ≤ p.limit := by
      rw [List.length_append] at hle
      omega
    obtain ⟨p', rfl, hp'⟩ := h.prints hok hfirst
    obtain ⟨p'', hx, hp''⟩ := (hf p' hp').prints hok' ((hsize p' hp').2 hle)
    exact ⟨p'', hx, hp'.trans hp''⟩
  · intro hnot
    by_cases hfirst : ok ∧ p.text.length + s.length + room ≤ p.limit
    · obtain ⟨p', rfl, hp'⟩ := h.prints hfirst.1 hfirst.2
      exact (hf p' hp').refuses fun hall => hnot ⟨⟨hfirst.1, hall.1⟩, (hsize p' hp').1 hall.2⟩
    · rw [h.refuses hfirst]
      rfl

theorem Prints.congr (h : Prints ok room depth s p x) (hok : ok ↔ ok') : Prints ok' room depth s p x := by
  rwa [← propext hok]

theorem Prints.setDepth (h : Prints ok room depth s p x) (depth' : ℕ) :
    Prints ok room depth' s p (x >>= fun p' => .ok (p'.setDepth depth')) := by
  constructor
  · intro hok hle
    obtain ⟨p', rfl, hp'⟩ := h.prints hok hle
    exact ⟨_, rfl, hp'.text, rfl, hp'.limit, hp'.format, ⟨hp'.valid.lt, hp'.valid.le⟩⟩
  · intro hnot
    rw [h.refuses hnot]
    rfl

/-! ## Room -/

/-- The same buffer with room for so many bytes behind the offset. -/
structure HasRoom (needed : ℕ) (p p' : PrintBuffer) : Prop where
  text : p'.text = p.text
  ahead : p'.ahead = p.ahead
  depth : p'.depth = p.depth
  format : p'.format = p.format
  limit : p'.limit = p.limit
  lt : p.text.length + needed < p'.length
  le : p'.length ≤ intMax

/-- **`ensure`** gives the room that is asked for, or gives up. -/
theorem ensure_spec (hp : p.Valid) (needed : ℕ) :
    (p.text.length + needed < p.limit → ∃ p', p.ensure needed = .ok p' ∧ HasRoom needed p p') ∧
    (¬ p.text.length + needed < p.limit → p.ensure needed = .error .refused) := by
  have hlt := hp.lt
  have hle := hp.le
  have hstart : ¬ (0 < p.length ∧ p.length ≤ p.text.length) := fun h => by omega
  rw [PrintBuffer.ensure, if_neg hstart]
  simp only
  by_cases hnoalloc : p.noalloc = true
  · have hlimit : p.limit = p.length := if_pos hnoalloc
    rw [hlimit, if_pos hnoalloc]
    refine ⟨fun h => ⟨p, ?_, rfl, rfl, rfl, rfl, rfl, h, hle⟩, fun h => ?_⟩
    · rw [if_neg (by omega), if_pos (by omega)]
    · by_cases hmax : intMax < needed
      · rw [if_pos hmax]
      · rw [if_neg hmax, if_neg (by omega)]
  · have hlimit : ∀ l, ({ p with length := l } : PrintBuffer).limit = intMax := fun l => if_neg hnoalloc
    have hself : p.limit = intMax := hlimit p.length
    rw [hself, if_neg hnoalloc]
    refine ⟨fun h => ?_, fun h => ?_⟩
    · rw [if_neg (by omega)]
      by_cases hfits : needed + p.text.length + 1 ≤ p.length
      · rw [if_pos hfits]
        exact ⟨p, rfl, rfl, rfl, rfl, rfl, rfl, by omega, hle⟩
      rw [if_neg hfits]
      by_cases hhalf : intMax / 2 < needed + p.text.length + 1
      · rw [if_pos hhalf, if_pos (by omega)]
        exact ⟨_, rfl, rfl, rfl, rfl, rfl, (hlimit _).trans hself.symm, h, le_rfl⟩
      · rw [if_neg hhalf]
        refine ⟨_, rfl, rfl, rfl, rfl, rfl, (hlimit _).trans hself.symm, ?_, ?_⟩
        · show p.text.length + needed < (needed + p.text.length + 1) * 2
          omega
        · show (needed + p.text.length + 1) * 2 ≤ intMax
          omega
    · by_cases hmax : intMax < needed
      · rw [if_pos hmax]
      · rw [if_neg hmax, if_neg (by omega), if_pos (by omega), if_neg (by omega)]

/-- **Room, a text that is written there, and an offset that is moved**: to behind the text or, with
`update_offset`, to its terminator. -/
theorem prints_of_ensure {needed : ℕ} {f : PrintBuffer → Except Stop PrintBuffer} (hp : p.Valid)
    (hneeded : s.length ≤ needed) (hroom : needed + 1 = s.length + room)
    (hf : ∀ p', HasRoom needed p p' → ∃ p'', f p' = .ok p'' ∧ p''.text = p'.text ++ s ∧ p''.depth = depth ∧
      p''.limit = p'.limit ∧ p''.format = p'.format ∧ p''.length = p'.length) :
    Prints True room depth s p (p.ensure needed >>= f) := by
  obtain ⟨hgives, hrefuses⟩ := ensure_spec hp needed
  constructor
  · intro _ hle
    obtain ⟨p', hensure, hp'⟩ := hgives (by omega)
    obtain ⟨p'', hf', htext, hdepth, hlimit, hformat, hlength⟩ := hf p' hp'
    refine ⟨p'', by rw [hensure, ok_bind, hf'], ?_, hdepth, hlimit.trans hp'.limit, hformat.trans hp'.format,
      ?_, ?_⟩
    · rw [htext, hp'.text]
    · have := hp'.lt
      rw [htext, hp'.text, List.length_append, hlength]
      omega
    · rw [hlength]
      exact hp'.le
  · intro hnot
    rw [hrefuses fun h => hnot ⟨trivial, by omega⟩]
    rfl

/-- What is written is what was asked room for. -/
theorem write_eq {needed : ℕ} {p p' : PrintBuffer} (h : HasRoom needed p p') (hs : s.length ≤ needed + 1) :
    p'.write s = .ok { p' with ahead := s ++ p'.ahead.drop s.length } := by
  have := h.lt
  rw [PrintBuffer.write, h.text, if_pos (by omega)]

theorem advance_eq {p : PrintBuffer} {t : Bytes} (h : p.ahead = s ++ t) :
    p.advance s.length = .ok { p with text := p.text ++ s, ahead := t } := by
  rw [PrintBuffer.advance, h, List.length_append, if_pos (Nat.le_add_right _ _), List.take_left, List.drop_left]

theorem updateOffset_eq {p : PrintBuffer} {t : Bytes} (hs : (0 : UInt8) ∉ s) (h : p.ahead = s ++ 0 :: t) :
    p.updateOffset = .ok { p with text := p.text ++ s, ahead := 0 :: t } := by
  rw [PrintBuffer.updateOffset, h, if_pos (by simp), cstr_append_zero hs]
  exact advance_eq h

/-- A text that the offset is moved behind. -/
theorem writeOver_prints (hp : p.Valid) {needed : ℕ} (hneeded : s.length ≤ needed) (room : ℕ)
    (hroom : needed + 1 = s.length + room) : Prints True room p.depth s p (p.writeOver needed s) := by
  refine prints_of_ensure hp hneeded hroom fun p' hp' => ?_
  rw [write_eq hp' (by omega), ok_bind]
  exact ⟨_, advance_eq rfl, rfl, hp'.depth, rfl, rfl, rfl⟩

/-- A text with its terminator, that `update_offset` moves the offset behind. -/
theorem writeEnded_prints (hp : p.Valid) (hs : (0 : UInt8) ∉ s) {needed : ℕ}
    (hneeded : s.length + 1 = needed) :
    Prints True 2 p.depth s p (p.ensure needed >>= fun p' => p'.write (s ++ [0]) >>= (·.updateOffset)) := by
  refine prints_of_ensure hp (by omega) (by omega) fun p' hp' => ?_
  rw [write_eq hp' (by rw [List.length_append, List.length_singleton]; omega), ok_bind]
  refine ⟨_, updateOffset_eq (t := p'.ahead.drop (s ++ [0]).length) hs ?_, rfl, hp'.depth, rfl, rfl, rfl⟩
  exact List.append_assoc ..

/-- The same where a child ends and the depth is the one outside again. -/
theorem writeClosed_prints (hp : p.Valid) (hs : (0 : UInt8) ∉ s) (depth : ℕ) {needed : ℕ}
    (hneeded : s.length + 1 = needed) :
    Prints True 2 depth s p (p.ensure needed >>= fun p' =>
      p'.write (s ++ [0]) >>= fun p' => (p'.setDepth depth).updateOffset) := by
  refine prints_of_ensure hp (by omega) (by omega) fun p' hp' => ?_
  rw [write_eq hp' (by rw [List.length_append, List.length_singleton]; omega), ok_bind]
  refine ⟨_, updateOffset_eq (t := p'.ahead.drop (s ++ [0]).length) hs ?_, rfl, rfl, rfl, rfl, rfl⟩
  exact List.append_assoc ..

/-- A text with its terminator, that the offset is moved behind. -/
theorem writeBehind_prints (hp : p.Valid) : Prints True 2 p.depth s p (p.writeBehind s) := by
  refine prints_of_ensure hp (Nat.le_succ _) rfl fun p' hp' => ?_
  have hs : (s ++ [0]).length ≤ s.length + 1 + 1 := by simp
  rw [write_eq hp' hs, ok_bind]
  refine ⟨_, advance_eq (t := 0 :: p'.ahead.drop (s ++ [0]).length) ?_, rfl, hp'.depth, rfl, rfl, rfl⟩
  exact List.append_assoc ..

/-- The same, and `update_offset` finds the terminator there. -/
theorem writeBehind_updateOffset_prints (hp : p.Valid) :
    Prints True 2 p.depth s p (p.writeBehind s >>= (·.updateOffset)) := by
  rw [PrintBuffer.writeBehind, bind_assoc]
  simp only [bind_assoc]
  refine prints_of_ensure hp (Nat.le_succ _) rfl fun p' hp' => ?_
  have hs : (s ++ [0]).length ≤ s.length + 1 + 1 := by simp
  rw [write_eq hp' hs, ok_bind,
    advance_eq (t := 0 :: p'.ahead.drop (s ++ [0]).length) (List.append_assoc ..), ok_bind]
  refine ⟨_, updateOffset_eq (s := []) (t := p'.ahead.drop (s ++ [0]).length) List.not_mem_nil rfl, ?_,
    hp'.depth, rfl, rfl, rfl⟩
  exact List.append_nil _

/-! ## Strings and numbers -/

/-- The bytes that `print_string_ptr` counts for a byte are those that it writes. -/
theorem length_printedByte (c : UInt8) : (printedByte c).length = 1 + escapeCharacters c := by
  revert c
  exact forall_byte (by decide +kernel)

theorem zero_notMem_printedByte (c : UInt8) : (0 : UInt8) ∉ printedByte c := by
  revert c
  exact forall_byte (by decide +kernel)

theorem zero_notMem_quoted (s : Bytes) : (0 : UInt8) ∉ quoted s := by
  simp only [quoted, List.cons_append, List.mem_cons, List.mem_append, List.mem_flatMap, List.not_mem_nil,
    or_false, not_or, not_exists, not_and]
  exact ⟨by decide, fun c _ => zero_notMem_printedByte c, by decide⟩

theorem length_flatMap_printedByte (s : Bytes) :
    (s.flatMap printedByte).length = s.length + (s.map escapeCharacters).sum := by
  induction s with
  | nil => rfl
  | cons c s ih =>
    rw [List.flatMap_cons, List.length_append, ih, length_printedByte, List.map_cons, List.sum_cons,
      List.length_cons]
    omega

theorem length_quoted (s : Bytes) :
    (quoted s).length = (cstr s).length + ((cstr s).map escapeCharacters).sum + 2 := by
  rw [quoted, List.length_append, List.length_cons, length_flatMap_printedByte, List.length_singleton]

/-- **A string** takes the room that was counted for it. -/
theorem printStringPtr_prints (hp : p.Valid) (s : Bytes) :
    Prints True 2 p.depth (quoted s) p (printStringPtr s p >>= (·.updateOffset)) := by
  have h := writeEnded_prints hp (zero_notMem_quoted s) rfl
  rw [length_quoted] at h
  rw [printStringPtr, bind_assoc]
  convert h using 4
  rw [quoted, List.append_assoc]
  rfl

theorem zero_notMem_numberText (ops : Doubles D) (d : D) : (0 : UInt8) ∉ numberText ops d := by
  rw [numberText]
  split_ifs
  · decide
  · intro h
    rcases mem_printDecimal h with h | h
    · exact absurd h (by decide)
    · exact absurd h.1 (by decide)
  · split
    · split_ifs
      · exact ops.print15_ne_zero d
      · exact ops.print17_ne_zero d
    · exact ops.print17_ne_zero d

theorem printNumber_prints (ops : Doubles D) (hp : p.Valid) (d : D) :
    Prints ((numberText ops d).length ≤ 25) 2 p.depth (numberText ops d) p
      (printNumber ops d p >>= (·.updateOffset)) := by
  rw [printNumber]
  by_cases hlength : 25 < (numberText ops d).length
  · rw [if_pos hlength]
    exact ⟨fun h => absurd hlength (not_lt.2 h), fun _ => rfl⟩
  · rw [if_neg hlength]
    exact (writeBehind_updateOffset_prints hp).congr (iff_of_true trivial (not_lt.1 hlength))

theorem writeWord_prints (hp : p.Valid) (hs : (0 : UInt8) ∉ s) :
    Prints True 2 p.depth s p (p.writeString s >>= (·.updateOffset)) := by
  rw [PrintBuffer.writeString, bind_assoc]
  exact writeEnded_prints hp hs rfl

/-! ## Values -/

theorem Printed.refl (hp : p.Valid) : Printed p.depth [] p p :=
  ⟨(List.append_nil _).symm, rfl, rfl, rfl, hp⟩

/-- What an item needs apart from the room. -/
def Item.Printable (ops : Doubles D) (v : Item D) (depth : ℕ) : Prop :=
  v.NumbersFit ops ∧ v.depth + depth ≤ nestingLimit

theorem prints_leaf {v : Item D} {ops : Doubles D} (h : Prints ok 2 p.depth s p x) (hd : p.depth ≤ nestingLimit)
    (hok : v.NumbersFit ops ↔ ok) (hv : v.depth = 0) : Prints (v.Printable ops p.depth) 2 p.depth s p x := by
  refine h.congr ⟨fun hok' => ⟨hok.2 hok', ?_⟩, fun hv' => hok.1 hv'.1⟩
  rw [hv, Nat.zero_add]
  exact hd

theorem prints_of_not {s : Bytes} (hok : ¬ ok) : Prints ok room depth s p (.error .refused) :=
  ⟨fun h => absurd h hok, fun _ => rfl⟩

/-- A step on a buffer that is the same but for its depth. -/
theorem Prints.of_setDepth {d : ℕ} (h : Prints ok room depth s (p.setDepth d) x) :
    Prints ok room depth s p x where
  prints hok hle := by
    obtain ⟨p', hx, hp'⟩ := h.prints hok hle
    exact ⟨p', hx, hp'.text, hp'.depth, hp'.limit, hp'.format, hp'.valid⟩
  refuses hnot := h.refuses hnot

/-- What the next step finds. -/
structure Continues (p p' : PrintBuffer) : Prop where
  valid : p'.Valid
  depth : p'.depth = p.depth
  format : p'.format = p.format

/-- **Steps that others follow**: what comes behind them asks for as much room as they do. -/
def Precedes (ok : Prop) (s : Bytes) (p : PrintBuffer) (x : Except Stop PrintBuffer) : Prop :=
  ∀ (ok' : Prop) (room' depth' : ℕ) (s' : Bytes) (f : PrintBuffer → Except Stop PrintBuffer),
    2 ≤ s'.length + room' → (∀ p', Continues p p' → Prints ok' room' depth' s' p' (f p')) →
    Prints (ok ∧ ok') room' depth' (s ++ s') p (x >>= f)

theorem Prints.precedes (h : Prints ok room p.depth s p x) (hroom : room ≤ 2) : Precedes ok s p x :=
  fun _ _ _ _ _ hs' hf => h.bind _ (by omega) fun p' hp' => hf p' ⟨hp'.valid, hp'.depth, hp'.format⟩

theorem precedes_nil (hp : p.Valid) : Precedes True [] p (.ok p) := fun _ _ _ _ _ _ hf =>
  (hf p ⟨hp, rfl, rfl⟩).congr (iff_of_eq (true_and _).symm)

theorem Precedes.congr (h : Precedes ok s p x) (hok : ok ↔ ok') : Precedes ok' s p x := by
  rwa [← propext hok]

theorem Precedes.bind (ok' : Prop) {g : PrintBuffer → Except Stop PrintBuffer} (h : Precedes ok s p x)
    (hg : ∀ p', Continues p p' → Precedes ok' s' p' (g p')) : Precedes (ok ∧ ok') (s ++ s') p (x >>= g) := by
  intro okEnd room depth t f hroom hf
  rw [bind_assoc, List.append_assoc]
  refine (h (ok' ∧ okEnd) room depth (s' ++ t) _ ?_ fun p' hp' => ?_).congr and_assoc.symm
  · rw [List.length_append]
    omega
  · exact hg p' hp' okEnd room depth t f hroom fun p'' hp'' =>
      hf p'' ⟨hp''.valid, hp''.depth.trans hp'.depth, hp''.format.trans hp'.format⟩

/-- **Children**: an opening text, the children one level further down, and a closing text. -/
theorem printChildren_prints {children : Bytes} (opened closed : Bytes) {needed needed' : ℕ}
    {print : PrintBuffer → Except Stop PrintBuffer} (hp : p.Valid) (hopened : opened.length ≤ needed)
    (hneeded : needed ≤ opened.length + 1) (hclosed : closed.length + 1 = needed')
    (hzero : (0 : UInt8) ∉ closed)
    (hprint : ∀ p', p'.Valid → p'.depth = p.depth + 1 → p'.format = p.format →
      Precedes ok children p' (print p')) :
    Prints ok 2 p.depth (opened ++ (children ++ closed)) p (p.writeOver needed opened >>= fun p₁ =>
      print (p₁.setDepth (p.depth + 1)) >>= fun p₂ => p₂.ensure needed' >>= fun p₃ =>
        p₃.write (closed ++ [0]) >>= fun p₄ => (p₄.setDepth p.depth).updateOffset) := by
  have hopen := writeOver_prints hp hopened (needed + 1 - opened.length) (by omega)
  refine (hopen.bind (ok ∧ True) ?_ fun p₁ hp₁ => ?_).congr (by simp)
  · rw [List.length_append]
    omega
  refine Prints.of_setDepth (hprint (p₁.setDepth (p.depth + 1)) ⟨hp₁.valid.lt, hp₁.valid.le⟩ rfl hp₁.format
    True 2 p.depth closed _ (by omega) fun p₂ hp₂ => ?_)
  exact writeClosed_prints hp₂.valid hzero p.depth hclosed

theorem printComma_precedes (hp : p.Valid) (last : Bool) :
    Precedes True (if last then [] else comma p.format) p (printComma last p) := by
  cases last with
  | true => exact precedes_nil hp
  | false => exact (writeBehind_prints hp).precedes le_rfl

theorem printIndent_precedes (hp : p.Valid) : Precedes True (indent p.format p.depth) p (printIndent p) := by
  rw [printIndent]
  by_cases hformat : p.format = true
  · have hlength : (indent p.format p.depth).length = p.depth := by
      rw [indent, if_pos hformat, List.length_replicate]
    rw [if_pos hformat]
    exact (writeOver_prints hp hlength.le 1 (by omega)).precedes (by decide)
  · rw [if_neg hformat, indent, if_neg hformat]
    exact precedes_nil hp

theorem printMemberEnd_precedes (hp : p.Valid) (last : Bool) :
    Precedes True (memberEnd p.format last) p (printMemberEnd last p) :=
  (writeBehind_prints hp).precedes le_rfl

mutual

/-- **A value** is printed as its text, if it is not nested too deeply and its numbers fit. -/
theorem printValue_prints (ops : Doubles D) : ∀ (v : Item D) {p : PrintBuffer}, p.Valid →
    p.depth ≤ nestingLimit → Prints (v.Printable ops p.depth) 2 p.depth (render ops p.format v p.depth) p
      (printValue ops v p >>= (·.updateOffset))
  | .null, p, hp, hd => by
    rw [printValue, render]
    exact prints_leaf (writeWord_prints hp (by decide)) hd Iff.rfl rfl
  | .false, p, hp, hd => by
    rw [printValue, render]
    exact prints_leaf (writeWord_prints hp (by decide)) hd Iff.rfl rfl
  | .true, p, hp, hd => by
    rw [printValue, render]
    exact prints_leaf (writeWord_prints hp (by decide)) hd Iff.rfl rfl
  | .raw s, p, hp, hd => by
    rw [printValue, render]
    exact prints_leaf (writeWord_prints hp (zero_notMem_cstr s)) hd Iff.rfl rfl
  | .string s, p, hp, hd => by
    rw [printValue, render]
    exact prints_leaf (printStringPtr_prints hp s) hd Iff.rfl rfl
  | .number d, p, hp, hd => by
    rw [printValue, render]
    exact prints_leaf (printNumber_prints ops hp d) hd Iff.rfl rfl
  | .array child, p, hp, hd => by
    have hok : (Item.array child).Printable ops p.depth ↔ NumbersFitElements ops child ∧
        depthOfElements child + (p.depth + 1) ≤ nestingLimit := by
      rw [Item.Printable, Item.NumbersFit, Item.depth, Nat.add_right_comm]
      rfl
    rw [printValue, render]
    by_cases hlimit : nestingLimit ≤ p.depth
    · rw [if_pos hlimit]
      exact prints_of_not fun h => by
        have := (hok.1 h).2
        omega
    rw [if_neg hlimit]
    simp only [bind_assoc, ok_bind]
    refine (printChildren_prints [91] [93] hp (by simp) (by simp) rfl (by decide)
      fun p' hp' hd' hf' => ?_).congr hok.symm
    have h := printElements_precedes ops child hp' (by omega)
    rwa [hd', hf'] at h
  | .object child, p, hp, hd => by
    have hok : (Item.object child).Printable ops p.depth ↔ NumbersFitMembers ops child ∧
        depthOfMembers child + (p.depth + 1) ≤ nestingLimit := by
      rw [Item.Printable, Item.NumbersFit, Item.depth, Nat.add_right_comm]
      rfl
    rw [printValue, render]
    by_cases hlimit : nestingLimit ≤ p.depth
    · rw [if_pos hlimit]
      exact prints_of_not fun h => by
        have := (hok.1 h).2
        omega
    rw [if_neg hlimit]
    simp only [bind_assoc, ok_bind]
    have hclosed : (indent p.format p.depth ++ [125]).length + 1 = if p.format then p.depth + 2 else 2 := by
      rw [indent]
      split_ifs <;> simp
    have hzero : (0 : UInt8) ∉ indent p.format p.depth ++ [125] := by
      rw [indent]
      split_ifs <;> simp
    have hchildren : ∀ p' : PrintBuffer, p'.Valid → p'.depth = p.depth + 1 → p'.format = p.format →
        Precedes (NumbersFitMembers ops child ∧ depthOfMembers child + (p.depth + 1) ≤ nestingLimit)
          (renderMembers ops p.format child (p.depth + 1)) p' (printMembers ops child p') := by
      intro p' hp' hd' hf'
      have h := printMembers_precedes ops child hp' (by omega)
      rwa [hd', hf'] at h
    have h := printChildren_prints (opening p.format) _ hp (Nat.le_succ _) le_rfl hclosed hzero hchildren
    simp only [List.append_assoc, List.singleton_append] at h
    exact h.congr hok.symm

/-- **The elements** of an array. -/
theorem printElements_precedes (ops : Doubles D) : ∀ (l : List (Item D)) {p : PrintBuffer}, p.Valid →
    p.depth ≤ nestingLimit →
      Precedes (NumbersFitElements ops l ∧ depthOfElements l + p.depth ≤ nestingLimit)
        (renderElements ops p.format l p.depth) p (printElements ops l p)
  | [], p, hp, hd => by
    rw [printElements, renderElements]
    refine (precedes_nil hp).congr (iff_of_true trivial ⟨trivial, ?_⟩)
    rw [depthOfElements, Nat.zero_add]
    exact hd
  | v :: l, p, hp, hd => by
    rw [printElements, renderElements, ← bind_assoc]
    refine (((printValue_prints ops v hp hd).precedes le_rfl).bind (True ∧ NumbersFitElements ops l ∧
      depthOfElements l + p.depth ≤ nestingLimit) fun p₁ hp₁ => ?_).congr ?_
    · have hcomma := printComma_precedes hp₁.valid l.isEmpty
      rw [hp₁.format] at hcomma
      refine hcomma.bind _ fun p₂ hp₂ => ?_
      have h := printElements_precedes ops l hp₂.valid (by rw [hp₂.depth, hp₁.depth]; exact hd)
      rwa [hp₂.depth, hp₁.depth, hp₂.format, hp₁.format] at h
    · rw [Item.Printable, NumbersFitElements, depthOfElements]
      constructor
      · rintro ⟨⟨hv, hdv⟩, -, hl, hdl⟩
        exact ⟨⟨hv, hl⟩, by omega⟩
      · rintro ⟨⟨hv, hl⟩, hdepth⟩
        exact ⟨⟨hv, by omega⟩, trivial, hl, by omega⟩

/-- **The members** of an object. -/
theorem printMembers_precedes (ops : Doubles D) : ∀ (l : List (Bytes × Item D)) {p : PrintBuffer}, p.Valid →
    p.depth ≤ nestingLimit →
      Precedes (NumbersFitMembers ops l ∧ depthOfMembers l + p.depth ≤ nestingLimit)
        (renderMembers ops p.format l p.depth) p (printMembers ops l p)
  | [], p, hp, hd => by
    rw [printMembers, renderMembers]
    refine (precedes_nil hp).congr (iff_of_true trivial ⟨trivial, ?_⟩)
    rw [depthOfMembers, Nat.zero_add]
    exact hd
  | (name, v) :: l, p, hp, hd => by
    rw [printMembers, renderMembers]
    simp only [← bind_assoc (x := printStringPtr name _), ← bind_assoc (x := printValue ops v _)]
    refine ((printIndent_precedes hp).bind (True ∧ True ∧ v.Printable ops p.depth ∧ True ∧
      NumbersFitMembers ops l ∧ depthOfMembers l + p.depth ≤ nestingLimit) fun p₁ hp₁ => ?_).congr ?_
    · refine ((printStringPtr_prints hp₁.valid name).precedes le_rfl).bind _ fun p₂ hp₂ => ?_
      have hformat₂ := hp₂.format.trans hp₁.format
      have hdepth₂ := hp₂.depth.trans hp₁.depth
      rw [hformat₂]
      refine ((writeOver_prints hp₂.valid le_rfl 1 rfl).precedes (by decide)).bind _
        fun p₃ hp₃ => ?_
      have hformat₃ := hp₃.format.trans hformat₂
      have hdepth₃ := hp₃.depth.trans hdepth₂
      have hv := printValue_prints ops v hp₃.valid (by rw [hdepth₃]; exact hd)
      rw [← hformat₃, ← hdepth₃]
      refine (hv.precedes le_rfl).bind _ fun p₄ hp₄ => ?_
      rw [← hp₄.format, ← hp₄.depth]
      refine (printMemberEnd_precedes hp₄.valid l.isEmpty).bind _ fun p₅ hp₅ => ?_
      have h := printMembers_precedes ops l hp₅.valid (by rw [hp₅.depth, hp₄.depth, hdepth₃]; exact hd)
      rwa [hp₅.depth, hp₅.format] at h
    · rw [Item.Printable, NumbersFitMembers, depthOfMembers]
      constructor
      · rintro ⟨-, -, -, ⟨hv, hdv⟩, -, hl, hdl⟩
        exact ⟨⟨hv, hl⟩, by omega⟩
      · rintro ⟨⟨hv, hl⟩, hdepth⟩
        exact ⟨trivial, trivial, trivial, ⟨hv, by omega⟩, trivial, hl, by omega⟩

end

/-! ## The whole text -/

mutual

/-- The text of an item is a string. -/
theorem zero_notMem_render (ops : Doubles D) (format : Bool) :
    ∀ (v : Item D) (depth : ℕ), (0 : UInt8) ∉ render ops format v depth
  | .null, _ => by
    rw [render]
    decide
  | .false, _ => by
    rw [render]
    decide
  | .true, _ => by
    rw [render]
    decide
  | .number d, _ => by
    rw [render]
    exact zero_notMem_numberText ops d
  | .raw s, _ => by
    rw [render]
    exact zero_notMem_cstr s
  | .string s, _ => by
    rw [render]
    exact zero_notMem_quoted s
  | .array child, depth => by
    have := zero_notMem_renderElements ops format child (depth + 1)
    simp [render, this]
  | .object child, depth => by
    have := zero_notMem_renderMembers ops format child (depth + 1)
    cases format <;> simp [render, this, opening, indent]

theorem zero_notMem_renderElements (ops : Doubles D) (format : Bool) :
    ∀ (l : List (Item D)) (depth : ℕ), (0 : UInt8) ∉ renderElements ops format l depth
  | [], _ => List.not_mem_nil
  | v :: l, depth => by
    have := zero_notMem_render ops format v depth
    have := zero_notMem_renderElements ops format l depth
    cases format <;> cases hl : l.isEmpty <;> simp [renderElements, *, comma]

theorem zero_notMem_renderMembers (ops : Doubles D) (format : Bool) :
    ∀ (l : List (Bytes × Item D)) (depth : ℕ), (0 : UInt8) ∉ renderMembers ops format l depth
  | [], _ => List.not_mem_nil
  | (name, v) :: l, depth => by
    have := zero_notMem_quoted name
    have := zero_notMem_render ops format v depth
    have := zero_notMem_renderMembers ops format l depth
    cases format <;> cases hl : l.isEmpty <;> simp [renderMembers, *, indent, colon, memberEnd]

end

/-- `update_offset` moves the offset to a terminator. -/
theorem updateOffset_ahead {p p' : PrintBuffer} (h : p.updateOffset = .ok p') : p'.ahead.take 1 = [0] := by
  have hzero : (0 : UInt8) ∈ p.ahead := by
    by_contra hnone
    rw [PrintBuffer.updateOffset, if_neg hnone] at h
    cases h
  obtain ⟨t, ht⟩ := exists_eq_cstr_append hzero
  rw [updateOffset_eq (zero_notMem_cstr _) ht] at h
  cases h
  rfl

theorem validBuffer_empty (format : Bool) : (⟨[], [], 256, 0, Bool.false, format⟩ : PrintBuffer).Valid :=
  ⟨show 0 < 256 by decide, show 256 ≤ intMax by decide⟩

/-- The text of an item fits when it is the whole text. -/
theorem fits_empty (ops : Doubles D) (item : Item D) (format : Bool) :
    ([] : Bytes).length + (render ops format item 0).length + 2 ≤ intMax ↔
      (render ops format item 0).length + 2 ≤ intMax := by
  rw [List.length_nil, Nat.zero_add]

/-- An item that can be printed is printed as its text. -/
theorem print_ok {ops : Doubles D} {item : Item D} {format : Bool} (hok : item.Printable ops 0)
    (hfits : (render ops format item 0).length + 2 ≤ intMax) :
    print ops item format = .ok (render ops format item 0 ++ [0]) := by
  have h := printValue_prints ops item (validBuffer_empty format) (Nat.zero_le _)
  obtain ⟨p', hp', hprinted⟩ := h.prints hok ((fits_empty ops item format).2 hfits)
  obtain ⟨q, -, hq⟩ := bind_eq_ok hp'
  rw [print, ← bind_assoc, hp', ok_bind, hprinted.text, updateOffset_ahead hq]
  rfl

/-- Of any other item nothing is printed. -/
theorem print_refused {ops : Doubles D} {item : Item D} {format : Bool}
    (hnot : ¬ (item.Printable ops 0 ∧ (render ops format item 0).length + 2 ≤ intMax)) :
    print ops item format = .error .refused := by
  have h := printValue_prints ops item (validBuffer_empty format) (Nat.zero_le _)
  rw [print, ← bind_assoc, h.refuses fun hall => hnot ⟨hall.1, (fits_empty ops item format).1 hall.2⟩]
  rfl

/-- **`print`** prints the text of the item, with its terminator, if the item is not nested too deeply, its
numbers fit and the text does; otherwise it gives up. -/
theorem print_eq (ops : Doubles D) (item : Item D) (format : Bool) :
    (item.Printable ops 0 ∧ (render ops format item 0).length + 2 ≤ intMax →
      print ops item format = .ok (render ops format item 0 ++ [0])) ∧
    (¬ (item.Printable ops 0 ∧ (render ops format item 0).length + 2 ≤ intMax) →
      print ops item format = .error .refused) :=
  ⟨fun h => print_ok h.1 h.2, print_refused⟩

end Json
end Arws
