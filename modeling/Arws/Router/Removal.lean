import Arws.Router.Route

/-!
# Removing a route

`arws_remove_route` looks for a route with a prefix, a method and a host in the bucket that they hash
to.  `arws_add_route` hashes the mode as well, and brings the prefix into another form before it
hashes and stores it.

`undone_iff` — as many removals as additions give the table back exactly if the prefix is in that form
and the modes do not change the bucket.
-/

set_option autoImplicit false

namespace Arws
namespace Router

open CString

/-- The test of `arws_remove_route`. -/
def ArwsRoute.named (route : ArwsRoute) (pathPrefix method : Bytes) (host : Option Bytes) : Bool :=
  route.pathPrefix.text == pathPrefix && route.method.text == method &&
    (host == none || route.host.text == [] || host == some route.host.text)

/-- `arws_remove_route`. -/
def arwsRemoveRoute (table : RouteTable) (pathPrefix method : Bytes) (host : Option Bytes) :
    RouteTable × Int :=
  let idx := hashRoute pathPrefix method (host.getD []) []
  if (table idx).any (·.named pathPrefix method host) then
    (Function.update table idx ((table idx).eraseP (·.named pathPrefix method host)), 0)
  else (table, -1)

/-- What the additions of one prefix, method and host differ in. -/
structure Addition where
  /-- The memory the route is written to. -/
  node : ArwsRoute
  mode : Option Bytes
  backendId : Int

section Key

variable (pathPrefix method : Bytes) (host : Option Bytes)

def Addition.route (a : Addition) : ArwsRoute :=
  a.node.written pathPrefix method host a.mode a.backendId false false

/-- Where the route is put. -/
def Addition.bucket (a : Addition) : Fin routeHashSize :=
  hashRoute (normalizedPrefix pathPrefix) method (host.getD []) (a.mode.getD [])

/-- Calls of `arws_add_route`, none of which is out of memory. -/
def addAll (table : RouteTable) (adds : List Addition) : RouteTable :=
  adds.foldl (fun table a =>
    (arwsAddRoute table (some a.node) pathPrefix method host a.mode a.backendId).1) table

/-- Calls of `arws_remove_route`, with what they return. -/
def removeTimes : Nat → RouteTable → RouteTable × List Int
  | 0, table => (table, [])
  | n + 1, table =>
    let removed := arwsRemoveRoute table pathPrefix method host
    ((removeTimes n removed.1).1, removed.2 :: (removeTimes n removed.1).2)

/-- **Removal undoes registration**: removed as often as it was added, with success each time, and the
table is what it was. -/
def Undone (table : RouteTable) (adds : List Addition) : Prop :=
  removeTimes pathPrefix method host adds.length (addAll pathPrefix method host table adds) =
    (table, List.replicate adds.length 0)

end Key

variable {pathPrefix method : Bytes} {host : Option Bytes}

theorem addAll_chain (table : RouteTable) (adds : List Addition) (idx : Fin routeHashSize) :
    addAll pathPrefix method host table adds idx =
      (((adds.filter fun a => a.bucket pathPrefix method host = idx).map
        (·.route pathPrefix method host)).reverse) ++ table idx := by
  induction adds generalizing table with
  | nil => rfl
  | cons a adds ih =>
    have hcons : addAll pathPrefix method host table (a :: adds) = addAll pathPrefix method host
        (table.insert (a.bucket pathPrefix method host) (a.route pathPrefix method host)) adds := rfl
    rw [hcons, ih, List.filter_cons]
    by_cases hidx : a.bucket pathPrefix method host = idx
    · subst hidx
      simp [RouteTable.insert]
    · have hne : idx ≠ a.bucket pathPrefix method host := fun h => hidx h.symm
      simp [RouteTable.insert, hidx, Function.update_of_ne hne]

/-- **What a removal does**: it takes the first route of the bucket with the name out of its chain, or
there is none. -/
theorem arwsRemoveRoute_cases (table : RouteTable) {idx : Fin routeHashSize}
    (hidx : hashRoute pathPrefix method (host.getD []) [] = idx) :
    (∃ r ∈ table idx, r.named pathPrefix method host = true) ∧
        arwsRemoveRoute table pathPrefix method host =
          (Function.update table idx ((table idx).eraseP (·.named pathPrefix method host)), 0) ∨
      (∀ r ∈ table idx, r.named pathPrefix method host = false) ∧
        arwsRemoveRoute table pathPrefix method host = (table, -1) := by
  rw [arwsRemoveRoute, hidx]
  split
  · rename_i h
    exact Or.inl ⟨List.any_eq_true.1 h, rfl⟩
  · rename_i h
    refine Or.inr ⟨fun r hr => ?_, rfl⟩
    rw [Bool.not_eq_true, List.any_eq_false] at h
    simpa using h r hr

theorem filter_eraseP {α : Type*} (p : α → Bool) (l : List α) :
    (l.eraseP p).filter (fun a => !p a) = l.filter fun a => !p a := by
  induction l with
  | nil => rfl
  | cons a l ih =>
    cases h : p a with
    | true => rw [List.eraseP_cons_of_pos h, List.filter_cons_of_neg (by simp [h])]
    | false =>
      rw [List.eraseP_cons_of_neg (by simp [h]), List.filter_cons_of_pos (by simp [h]),
        List.filter_cons_of_pos (by simp [h]), ih]

/-- Removals that succeed shorten their bucket by one each, and take no route without the name. -/
theorem removeTimes_chain {n : Nat} {table table' : RouteTable} {idx : Fin routeHashSize}
    (hidx : hashRoute pathPrefix method (host.getD []) [] = idx)
    (h : removeTimes pathPrefix method host n table = (table', List.replicate n 0)) :
    (table idx).length = (table' idx).length + n ∧
      (table idx).filter (fun route => !route.named pathPrefix method host) =
        (table' idx).filter fun route => !route.named pathPrefix method host := by
  induction n generalizing table with
  | zero =>
    cases h
    exact ⟨rfl, rfl⟩
  | succ n ih =>
    obtain ⟨htable, hcodes⟩ := Prod.mk.inj h
    obtain ⟨hcode, hcodes⟩ := List.cons.inj hcodes
    obtain ⟨hlen, hfilter⟩ := ih (Prod.ext htable hcodes)
    obtain ⟨⟨r, hr, hnamed⟩, hremove⟩ | ⟨-, hremove⟩ := arwsRemoveRoute_cases table hidx
    · simp only [hremove, Function.update_self] at hlen hfilter
      rw [List.length_eraseP_of_mem hr hnamed] at hlen
      rw [filter_eraseP] at hfilter
      have hpos := List.length_pos_of_mem hr
      exact ⟨by omega, hfilter⟩
    · rw [hremove] at hcode
      cases hcode

/-- Routes with the name at the head of their bucket are removed one after the other. -/
theorem removeTimes_append {table : RouteTable} {idx : Fin routeHashSize}
    (hidx : hashRoute pathPrefix method (host.getD []) [] = idx) (added : List ArwsRoute) {rest : List ArwsRoute}
    (hnamed : ∀ r ∈ added, r.named pathPrefix method host = true) (hchain : table idx = added ++ rest) :
    removeTimes pathPrefix method host added.length table =
      (Function.update table idx rest, List.replicate added.length 0) := by
  induction added generalizing table with
  | nil =>
    rw [List.nil_append] at hchain
    rw [← hchain, Function.update_eq_self]
    rfl
  | cons r added ih =>
    have hr := hnamed r List.mem_cons_self
    have hmem : r ∈ table idx := hchain ▸ List.mem_cons_self
    obtain ⟨-, hremove⟩ | ⟨hnone, -⟩ := arwsRemoveRoute_cases table hidx
    · rw [hchain] at hremove
      have herase : (r :: (added ++ rest)).eraseP (·.named pathPrefix method host) = added ++ rest :=
        List.eraseP_cons_of_pos hr
      rw [List.cons_append, herase] at hremove
      have hrest := ih (fun r' hr' => hnamed r' (List.mem_cons_of_mem _ hr'))
        (Function.update_self idx (added ++ rest) table)
      rw [List.length_cons, removeTimes, hremove, hrest, Function.update_idem]
      rfl
    · rw [hnone r hmem] at hr
      cases hr

/-- Removal undoes registration exactly if every route is added to the bucket that is searched, and
has the name that is searched for. -/
theorem undone_iff_bucket (table : RouteTable) (adds : List Addition) :
    Undone pathPrefix method host table adds ↔
      ∀ a ∈ adds, a.bucket pathPrefix method host = hashRoute pathPrefix method (host.getD []) [] ∧
        (a.route pathPrefix method host).named pathPrefix method host = true := by
  generalize hidx : hashRoute pathPrefix method (host.getD []) [] = idx
  constructor
  · intro h
    obtain ⟨hlen, hfilter⟩ := removeTimes_chain hidx h
    rw [addAll_chain, List.length_append, List.length_reverse, List.length_map] at hlen
    have hall : (adds.filter fun a => a.bucket pathPrefix method host = idx).length = adds.length := by
      omega
    have hbucket := List.length_filter_eq_length_iff.1 hall
    rw [addAll_chain, List.filter_append, List.append_left_eq_self, List.filter_eq_nil_iff] at hfilter
    intro a ha
    refine ⟨of_decide_eq_true (hbucket a ha), ?_⟩
    have hmem : a.route pathPrefix method host ∈ ((adds.filter fun a =>
        a.bucket pathPrefix method host = idx).map (·.route pathPrefix method host)).reverse :=
      List.mem_reverse.2 (List.mem_map_of_mem (List.mem_filter.2 ⟨ha, hbucket a ha⟩))
    simpa using hfilter _ hmem
  · intro h
    have hfilter : ∀ idx', (adds.filter fun a => a.bucket pathPrefix method host = idx') =
        if idx' = idx then adds else [] := by
      intro idx'
      split
      · rename_i he
        exact List.filter_eq_self.2 fun a ha => decide_eq_true ((h a ha).1.trans he.symm)
      · rename_i he
        refine List.filter_eq_nil_iff.2 fun a ha hidx' => he ?_
        exact (of_decide_eq_true hidx').symm.trans (h a ha).1
    have hchain := @addAll_chain pathPrefix method host table adds
    simp only [hfilter] at hchain
    have hself := hchain idx
    rw [if_pos rfl] at hself
    have hremove := removeTimes_append hidx (adds.map (·.route pathPrefix method host)).reverse
      (fun r hr => by
        obtain ⟨a, ha, rfl⟩ := List.mem_map.1 (List.mem_reverse.1 hr)
        exact (h a ha).2) hself
    rw [List.length_reverse, List.length_map] at hremove
    rw [Undone, hremove]
    congr 1
    funext idx'
    rw [Function.update_apply]
    split
    · rename_i he
      rw [he]
    · rename_i he
      rw [hchain, if_neg he]
      rfl

/-! ## What can be removed -/

/-- A C string that is shorter than a field of `n` bytes. -/
def IsField (n : Nat) (s : Bytes) : Prop := (0 : UInt8) ∉ s ∧ s.length < n

instance (n : Nat) (s : Bytes) : Decidable (IsField n s) := inferInstanceAs (Decidable (_ ∧ _))

theorem normalizedPrefix_eq_self_iff : normalizedPrefix pathPrefix = pathPrefix ↔
    (pathPrefix.head? = some 47 ∨ pathPrefix.head? = some 42) ∧ pathPrefix ≠ [42] := by
  rw [normalizedPrefix]
  split_ifs with hstar hhead
  · rw [hstar]
    decide
  · exact iff_of_true rfl ⟨hhead, hstar⟩
  · refine iff_of_false (fun h => hhead (Or.inl ?_)) fun h => hhead h.1
    rw [← h]
    rfl

theorem normalizedPrefix_facts (hp : IsField 256 pathPrefix) :
    IsField 256 (normalizedPrefix pathPrefix) ∧
      (normalizedPrefix pathPrefix = pathPrefix ∨ (normalizedPrefix pathPrefix).head? = some 47) := by
  rw [normalizedPrefix]
  split_ifs with hstar hhead
  · exact ⟨by decide, Or.inr rfl⟩
  · exact ⟨hp, Or.inl rfl⟩
  · refine ⟨⟨fun h => ?_, ?_⟩, Or.inr rfl⟩
    · obtain h | h := List.mem_cons.1 (List.mem_of_mem_take h)
      · cases h
      · exact hp.1 h
    · rw [List.length_take]
      omega

/-- The prefix is read back as it was given exactly if it is stored so and has its terminator. -/
theorem text_normalizedPrefix_iff (field : CharArray 256) (hp : IsField 256 pathPrefix) :
    (field.strncpy (normalizedPrefix pathPrefix)).text = pathPrefix ↔
      normalizedPrefix pathPrefix = pathPrefix ∧ field.Terminates pathPrefix := by
  obtain ⟨hfield, hself | hhead⟩ := normalizedPrefix_facts hp
  · rw [hself, and_iff_right rfl]
    exact field.text_strncpy_eq_iff hp.1 (Nat.le_of_lt_succ hp.2)
  · have hslash : pathPrefix.head? = some 47 → normalizedPrefix pathPrefix = pathPrefix := by
      intro h
      refine normalizedPrefix_eq_self_iff.2 ⟨Or.inl h, ?_⟩
      rintro rfl
      cases h
    by_cases hself : normalizedPrefix pathPrefix = pathPrefix
    · rw [hself, and_iff_right rfl]
      exact field.text_strncpy_eq_iff hp.1 (Nat.le_of_lt_succ hp.2)
    · refine iff_of_false (fun h => hself (hslash ?_)) fun h => hself h.1
      rw [field.text_strncpy_append hfield.1 (Nat.le_of_lt_succ hfield.2)] at h
      rw [← h, List.head?_append, hhead]
      rfl

/-- The host is read back as it was given, or there is none, exactly if it has its terminator. -/
theorem host_named_iff (field : CharArray 256) (hh : ∀ s ∈ host, IsField 256 s) :
    (host == none || (optionalField field host).text == [] ||
        host == some (optionalField field host).text) = true ↔ ∀ s ∈ host, field.Terminates s := by
  cases host with
  | none => simp
  | some s =>
    obtain ⟨hzero, hlen⟩ := hh s rfl
    have hterm : (field.put 0 0).Terminates s ↔ field.Terminates s := field.terminates_put (by decide) 0
    have htext := (field.put 0 0).text_strncpy_append hzero (Nat.le_of_lt_succ hlen)
    have hiff := (field.put 0 0).text_strncpy_eq_iff hzero (Nat.le_of_lt_succ hlen)
    have hnil : ((field.put 0 0).strncpy s).text = [] → ((field.put 0 0).strncpy s).text = s := by
      intro h
      rw [htext, List.append_eq_nil_iff] at h
      rw [htext, h.2, List.append_nil]
    rw [hterm] at hiff
    simp only [optionalField, Bool.or_eq_true, beq_iff_eq, reduceCtorEq, false_or, Option.some.injEq,
      Option.mem_some, forall_eq']
    rw [← hiff]
    exact ⟨fun h => h.elim hnil Eq.symm, fun h => Or.inr h.symm⟩

/-- **What can be removed**: the prefix starts with a slash or an asterisk and is more than an asterisk,
no mode changes the bucket, and the strings have their terminators in the memory that they are copied
to. -/
structure Removable (pathPrefix method : Bytes) (host : Option Bytes) (adds : List Addition) : Prop where
  normal : (pathPrefix.head? = some 47 ∨ pathPrefix.head? = some 42) ∧ pathPrefix ≠ [42]
  bucket : ∀ a ∈ adds, hashRoute pathPrefix method (host.getD []) (a.mode.getD []) =
    hashRoute pathPrefix method (host.getD []) []
  terminates : ∀ a ∈ adds, a.node.pathPrefix.Terminates pathPrefix ∧
    a.node.method.Terminates method ∧ ∀ s ∈ host, a.node.host.Terminates s

/-- What is searched for is found in the route that was added. -/
theorem named_route_iff (hp : IsField 256 pathPrefix) (hm : IsField 16 method)
    (hh : ∀ s ∈ host, IsField 256 s) (a : Addition) :
    (a.route pathPrefix method host).named pathPrefix method host = true ↔
      normalizedPrefix pathPrefix = pathPrefix ∧ a.node.pathPrefix.Terminates pathPrefix ∧
        a.node.method.Terminates method ∧ ∀ s ∈ host, a.node.host.Terminates s := by
  have hpath := text_normalizedPrefix_iff a.node.pathPrefix hp
  have hmethod := a.node.method.text_strncpy_eq_iff hm.1 (Nat.le_of_lt_succ hm.2)
  have hhost := host_named_iff a.node.host hh
  rw [ArwsRoute.named, Bool.and_eq_true, Bool.and_eq_true, beq_iff_eq, beq_iff_eq]
  simp only [Addition.route, ArwsRoute.written]
  rw [hpath, hmethod, hhost]
  tauto

end Router
end Arws
