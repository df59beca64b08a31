import Arws.Gateway.Dispatcher
import Arws.Upstream.RoundRobinOrder

/-!
# The target of a node

A node is stored by `arws_upstream_add_node`, printed into a URL by `arws_dispatch` and read back by
`parse_target`, and each of the three has limits of its own.

* `parseTarget_nodeTarget` — the host that is read back ends at the first delimiter, and a port that is
  too large is refused.
* `readBack_iff` — so an accepted node is reached exactly if its host has no delimiter and fits its field,
  and its port is a port.
* `not_readBack` — a node with the port 70000 is accepted, and every request for it fails.
-/

set_option autoImplicit false

namespace Arws
namespace Proxy

open CString Gateway Upstream

/-! ## Reading a target -/

/-- The scheme of a URL: what stands behind it, and the port it goes with. -/
def parseScheme (url : Bytes) : Option (Bytes × Int) :=
  if (ascii "ws://").isPrefixOf url then some (url.drop 5, 80)
  else if (ascii "wss://").isPrefixOf url then some (url.drop 6, 443)
  else if (ascii "http://").isPrefixOf url then some (url.drop 7, 80)
  else if (ascii "https://").isPrefixOf url then some (url.drop 8, 443)
  else none

/-- A byte of a host: it is not `:`, `/` or `?`. -/
def isHostByte (c : UInt8) : Bool := c != 58 && c != 47 && c != 63

/-- The loop over the digits of a port, with those that were read and their value. -/
def parsePort : Nat → Int → Bytes → Option Int
  | _, port, [] => some port
  | digits, port, c :: rest =>
    if isDigit c then
      if digits ≥ 5 ∨ port > (65535 - ((c.toNat : Int) - 48)).tdiv 10 then none
      else parsePort (digits + 1) (port * 10 + ((c.toNat : Int) - 48)) rest
    else some port

/-- `parse_target`, with the host and the port if it returns 0. -/
def parseTarget (url : Bytes) (hostSize : Nat) : Option (Bytes × Int) :=
  if hostSize < 1 then none
  else (parseScheme url).bind fun (rest, port) =>
    let host := (rest.takeWhile isHostByte).take (hostSize - 1)
    match rest.drop host.length with
    | 58 :: digits => (parsePort 0 0 digits).bind fun port => if port ≤ 0 then none else some (host, port)
    | _ => some (host, port)

/-! ### The digits of a port -/

/-- What a digit adds to a port, and when it is too much. -/
theorem parsePort_cons {digits port : Nat} {c : UInt8} {s : Bytes} (hc : isDigit c = true) :
    parsePort digits port (c :: s) =
      if digits < 5 ∧ 10 * port + (c.toNat - 48) ≤ 65535 then
        parsePort (digits + 1) ((10 * port + (c.toNat - 48) : Nat) : Int) s
      else none := by
  have hlo : 48 ≤ c.toNat := by
    rw [isDigit, Bool.and_eq_true, decide_eq_true_eq] at hc
    exact UInt8.le_iff_toNat_le.1 hc.1
  have hhi : c.toNat ≤ 57 := by
    rw [isDigit, Bool.and_eq_true, decide_eq_true_eq, decide_eq_true_eq] at hc
    exact UInt8.le_iff_toNat_le.1 hc.2
  have hvalue : (port : Int) * 10 + ((c.toNat : Int) - 48) = ((10 * port + (c.toNat - 48) : Nat) : Int) := by
    omega
  have hroom : (digits ≥ 5 ∨ (port : Int) > (65535 - ((c.toNat : Int) - 48)).tdiv 10) ↔
      ¬ (digits < 5 ∧ 10 * port + (c.toNat - 48) ≤ 65535) := by
    rw [Int.tdiv_eq_ediv_of_nonneg (by omega)]
    omega
  rw [parsePort, if_pos hc, hvalue]
  simp only [hroom, ite_not]

/-- A port that was read is the number its digits denote, and there are few of them. -/
theorem parsePort_eq_some {digits port : Nat} {s : Bytes} {value : Int} (hs : ∀ c ∈ s, isDigit c = true)
    (h : parsePort digits port s = some value) (hport : port ≤ 65535) (hdigits : digits ≤ 5) :
    value = (s.foldl (fun n c => 10 * n + (c.toNat - 48)) port : Nat) ∧ value ≤ 65535 ∧
      digits + s.length ≤ 5 := by
  induction s generalizing digits port with
  | nil =>
    obtain rfl := Option.some.inj h
    exact ⟨rfl, by omega, hdigits⟩
  | cons c s ih =>
    rw [parsePort_cons (hs c List.mem_cons_self), Option.ite_none_right_eq_some] at h
    obtain ⟨⟨hlt, hle⟩, h⟩ := h
    obtain ⟨hvalue, hsmall, hlen⟩ := ih (fun d hd => hs d (List.mem_cons_of_mem _ hd)) h hle hlt
    exact ⟨hvalue, hsmall, by rw [List.length_cons]; omega⟩

theorem parsePort_of_le {digits port : Nat} {s : Bytes} (hs : ∀ c ∈ s, isDigit c = true)
    (hlen : digits + s.length ≤ 5)
    (hle : s.foldl (fun n c => 10 * n + (c.toNat - 48)) port ≤ 65535) :
    parsePort digits port s = some ((s.foldl (fun n c => 10 * n + (c.toNat - 48)) port : Nat) : Int) := by
  have hgrows : ∀ (s : Bytes) (n : Nat), n ≤ s.foldl (fun n c => 10 * n + (c.toNat - 48)) n := by
    intro s
    induction s with
    | nil => exact fun n => le_rfl
    | cons c s ih => exact fun n => le_trans (show n ≤ 10 * n + (c.toNat - 48) by omega) (ih _)
  induction s generalizing digits port with
  | nil => rfl
  | cons c s ih =>
    rw [List.length_cons] at hlen
    rw [List.foldl_cons] at hle ⊢
    rw [parsePort_cons (hs c List.mem_cons_self), if_pos ⟨by omega, (hgrows s _).trans hle⟩]
    exact ih (fun d hd => hs d (List.mem_cons_of_mem _ hd)) (by omega) hle

/-- **A printed port is read back** exactly if it is one. -/
theorem parsePort_printDecimal (n : Nat) {m : Nat} (hm : 5 < m) :
    parsePort 0 0 ((printDecimal n).take m) = if n ≤ 65535 then some (n : Int) else none := by
  have hdigits : ∀ c ∈ (printDecimal n).take m, isDigit c = true := fun c hc =>
    isDigit_of_mem_printDecimal (List.mem_of_mem_take hc)
  have hwhole : ((printDecimal n).take m).length ≤ 5 → (printDecimal n).take m = printDecimal n := by
    rw [List.length_take]
    exact fun hle => List.take_of_length_le (by omega)
  by_cases hn : n ≤ 65535
  · have hlen : (printDecimal n).length ≤ 5 := (length_printDecimal_le_iff (by decide)).2 (by omega)
    have hvalue := digitsValue_printDecimal n
    rw [digitsValue] at hvalue
    rw [if_pos hn, List.take_of_length_le (by omega)]
    have hread := @parsePort_of_le 0 0 (printDecimal n)
      (fun c hc => isDigit_of_mem_printDecimal hc) (by omega) (by rwa [hvalue])
    rwa [hvalue] at hread
  · rw [if_neg hn]
    cases h : parsePort 0 0 ((printDecimal n).take m) with
    | none => rfl
    | some value =>
      obtain ⟨hvalue, hsmall, hlen⟩ := @parsePort_eq_some 0 0 _ _ hdigits h (by omega) (by omega)
      rw [hwhole (by omega), ← digitsValue, digitsValue_printDecimal] at hvalue
      omega

/-! ### The URL of a node -/

/-- The host that is read is the beginning of what stands behind the scheme. -/
theorem host_of_parseTarget {url host : Bytes} {hostSize : Nat} {port : Int}
    (h : parseTarget url hostSize = some (host, port)) :
    ∃ rest scheme, parseScheme url = some (rest, scheme) ∧
      host = (rest.takeWhile isHostByte).take (hostSize - 1) := by
  rw [parseTarget] at h
  split_ifs at h
  obtain ⟨⟨rest, scheme⟩, hscheme, h⟩ := Option.bind_eq_some_iff.1 h
  refine ⟨rest, scheme, hscheme, ?_⟩
  simp only at h
  split at h
  · obtain ⟨value, -, h⟩ := Option.bind_eq_some_iff.1 h
    split_ifs at h
    exact (Prod.mk.inj (Option.some.inj h)).1.symm
  · exact (Prod.mk.inj (Option.some.inj h)).1.symm

/-- The URL of a node whose host fits its field is cut in the digits of its port at most. -/
theorem nodeTarget_eq {node : ArwsBackendNode} (hfit : node.host.length ≤ 127) :
    nodeTarget node = ascii "http://" ++
      (node.host ++ 58 :: (printDecimal node.port).take (247 - node.host.length)) := by
  have hcolon : ascii ":" = [58] := by decide
  have hlen : (ascii "http://").length = 7 := by decide
  rw [nodeTarget, List.append_assoc, List.append_assoc, List.take_append, hlen,
    List.take_of_length_le (by rw [hlen]; decide), List.take_append,
    List.take_of_length_le (by omega), hcolon, List.singleton_append,
    show 255 - 7 - node.host.length = 247 - node.host.length + 1 by omega, List.take_succ_cons]

theorem parseScheme_http (rest : Bytes) : parseScheme (ascii "http://" ++ rest) = some (rest, 80) := rfl

theorem takeWhile_host {host rest : Bytes} (h : ∀ c ∈ host, isHostByte c = true) :
    (host ++ 58 :: rest).takeWhile isHostByte = host := by
  rw [List.takeWhile_append_of_pos h, List.takeWhile_cons_of_neg (by decide), List.append_nil]

/-- **What is read back** from the URL of a node whose host has no delimiter. -/
theorem parseTarget_nodeTarget {node : ArwsBackendNode} (hfit : node.host.length ≤ 127)
    (hhost : ∀ c ∈ node.host, isHostByte c = true) (hpos : 0 < node.port) :
    parseTarget (nodeTarget node) 256 =
      if node.port ≤ 65535 then some (node.host, node.port) else none := by
  obtain ⟨n, hn⟩ := Int.eq_ofNat_of_zero_le hpos.le
  rw [parseTarget, if_neg (by decide), nodeTarget_eq hfit, parseScheme_http, Option.bind_some]
  simp only [takeWhile_host hhost, List.take_of_length_le (show node.host.length ≤ 256 - 1 by omega),
    List.drop_left, hn, parsePort_printDecimal n (show 5 < 247 - node.host.length by omega)]
  by_cases hport : n ≤ 65535
  · rw [if_pos hport, if_pos (by omega), Option.bind_some, if_neg (by omega)]
  · rw [if_neg hport, if_neg (by omega), Option.bind_none]

/-- **A node whose host fits is read back** exactly if its host has no delimiter and its port is one. -/
theorem readBack_node_iff {node : ArwsBackendNode} {host : Bytes} (hnode : node.host = host.take 127)
    (hpos : 0 < node.port) :
    parseTarget (nodeTarget node) 256 = some (host, node.port) ↔
      (∀ c ∈ host, isHostByte c = true) ∧ host.length ≤ 127 ∧ node.port ≤ 65535 := by
  have hfit : node.host.length ≤ 127 := by
    rw [hnode, List.length_take]
    omega
  constructor
  · intro h
    obtain ⟨rest, scheme, hscheme, hread⟩ := host_of_parseTarget h
    rw [nodeTarget_eq hfit, parseScheme_http, Option.some.injEq, Prod.mk.injEq] at hscheme
    obtain ⟨rfl, -⟩ := hscheme
    have hbytes : ∀ c ∈ host, isHostByte c = true := by
      intro c hc
      rw [hread] at hc
      exact List.mem_takeWhile_imp (List.mem_of_mem_take hc)
    have hshort : host.length ≤ 127 := by
      have hstored : ∀ c ∈ node.host, isHostByte c = true := fun c hc =>
        hbytes c (List.mem_of_mem_take (hnode ▸ hc))
      rw [takeWhile_host hstored] at hread
      rw [hread, List.length_take]
      omega
    rw [List.take_of_length_le hshort] at hnode
    subst hnode
    rw [parseTarget_nodeTarget hfit hbytes hpos, Option.ite_none_right_eq_some] at h
    exact ⟨hbytes, hshort, h.1⟩
  · rintro ⟨hbytes, hshort, hport⟩
    rw [List.take_of_length_le hshort] at hnode
    subst hnode
    rw [parseTarget_nodeTarget hfit hbytes hpos, if_pos hport]

/-! ### The node that is stored -/

/-- The hosts fit their fields. -/
def HostsFit (pool : ArwsUpstreamPool) : Prop := ∀ n ∈ pool.nodes, n.host.length ≤ 127

theorem HostsFit.modify {pool : ArwsUpstreamPool} (h : HostsFit pool) {f : ArwsBackendNode → ArwsBackendNode}
    (hf : ∀ n, (f n).host = n.host) (i : Nat) : HostsFit { pool with nodes := pool.nodes.modify i f } :=
  forall_mem_modify (fun n hn => (hf n).symm ▸ hn) h i

theorem HostsFit.addNodeIn {pool : ArwsUpstreamPool} (h : HostsFit pool) (host : Bytes)
    (port weight isBackup : Int) : HostsFit (addNodeIn pool host port weight isBackup).1 := by
  obtain ⟨i, w, -, he⟩ | ⟨-, ⟨-, w, he⟩ | he⟩ := addNodeIn_cases pool host port weight isBackup
  · rw [he]
    refine h.modify ?_ i
    exact fun _ => rfl
  · rw [he]
    intro n hn
    rcases List.mem_append.1 hn with hn | hn
    · exact h n hn
    · rw [List.mem_singleton.1 hn]
      exact List.length_take_le 127 host
  · rw [he]
    exact h

theorem hostsFit_kept (kind : Int → Prop) : KeptInPool kind HostsFit where
  unused _ hn := nomatch hn
  create _ h := h
  fresh _ _ _ _ hn := nomatch hn
  params _ _ h := h
  addNode host port weight isBackup _ h := h.addNodeIn host port weight isBackup
  removeNode {pool} host port h := by
    obtain ⟨i, -, he⟩ | ⟨-, he⟩ := removeNodeIn_cases pool host port
    · rw [he]
      exact fun n hn => h n (List.mem_of_mem_eraseIdx hn)
    · rw [he]
      exact h
  setNodeDrain host port drain h := by
    rw [setNodeDrainIn]
    split
    · refine h.modify ?_ _
      exact fun _ => rfl
    · exact h
  probe host port now alive h := by
    rw [probeIn]
    split
    · exact h.modify (fun n => probed_host n _ _ now alive) _
    · exact h
  release named i statusCode h := h.modify (fun n => (release_spec n _ _ statusCode).1) i
  stands {pool pool'} hstands h n hn := by
    have hmem : n.standing ∈ pool'.nodes.map (·.standing) := List.mem_map_of_mem hn
    rw [hstands.nodes] at hmem
    obtain ⟨m, hm, he⟩ := List.mem_map.1 hmem
    have hhost : m.host = n.host := congrArg (·.1.1) he
    exact hhost ▸ h m hm

/-- A node that was accepted is in its pool, with as much of its host as fits. -/
theorem mem_addNodeIn {pool : ArwsUpstreamPool} {host : Bytes} {port weight isBackup : Int}
    (hfit : HostsFit pool) (h : (addNodeIn pool host port weight isBackup).2 = 0) :
    (addNodeIn pool host port weight isBackup).1.name = pool.name ∧
      (addNodeIn pool host port weight isBackup).1.active = pool.active ∧
      ∃ node ∈ (addNodeIn pool host port weight isBackup).1.nodes,
        node.host = host.take 127 ∧ node.port = port := by
  rw [Upstream.addNodeIn] at h ⊢
  cases hindex : nodeIndex pool.nodes host port with
  | some i =>
    obtain ⟨hlt, hfound, -⟩ := List.findIdx?_eq_some_iff_getElem.1 hindex
    rw [Bool.and_eq_true, beq_iff_eq, beq_iff_eq] at hfound
    obtain ⟨hhost, hport⟩ := hfound
    have hshort : host.length ≤ 127 := hhost ▸ hfit _ (List.getElem_mem hlt)
    refine ⟨rfl, rfl, _, List.getElem_mem (show i < (pool.nodes.modify i _).length from ?_), ?_⟩
    · rwa [List.length_modify]
    · rw [List.getElem_modify_eq, List.take_of_length_le hshort]
      exact ⟨hhost, hport⟩
  | none =>
    rw [hindex] at h
    simp only at h ⊢
    by_cases hfull : pool.nodes.length ≥ 32
    · rw [if_pos hfull] at h
      cases h
    · rw [if_neg hfull]
      exact ⟨rfl, rfl, _, List.mem_append_right _ (List.mem_singleton_self _), rfl, rfl⟩

theorem withPool_eq {pools pools' : List ArwsUpstreamPool} {poolName : Bytes}
    {f : ArwsUpstreamPool → ArwsUpstreamPool × Int} (h : withPool pools poolName f = (pools', 0)) :
    ∃ p pool, arwsUpstreamGetPool pools poolName = some p ∧ pools[p]? = some pool ∧
      pools' = pools.set p (f pool).1 ∧ (f pool).2 = 0 := by
  rw [withPool] at h
  split at h
  · cases h
  · split at h
    · cases h
    · rename_i p hp _ pool hget
      exact ⟨p, pool, hp, hget, (Prod.mk.inj h).1.symm, (Prod.mk.inj h).2⟩

/-- The same in the pools, whether there was the pool or not. -/
theorem mem_arwsUpstreamAddNode {pools pools' : List ArwsUpstreamPool} {poolName host : Bytes}
    {port weight isBackup : Int} (hfit : ∀ pool ∈ pools, HostsFit pool)
    (h : arwsUpstreamAddNode pools poolName host port weight isBackup = (pools', 0)) :
    0 < port ∧ ∃ node ∈ poolNodes pools' poolName, node.host = host.take 127 ∧ node.port = port := by
  have hin : ∀ start : List ArwsUpstreamPool, (∀ pool ∈ start, HostsFit pool) →
      withPool start poolName (fun pool => addNodeIn pool host port weight isBackup) = (pools', 0) →
      ∃ node ∈ poolNodes pools' poolName, node.host = host.take 127 ∧ node.port = port := by
    intro start hstart hadd
    obtain ⟨p, pool, hp, hget, rfl, hzero⟩ := withPool_eq hadd
    obtain ⟨hname, hactive, hnode⟩ := mem_addNodeIn (hstart pool (List.mem_of_getElem? hget)) hzero
    rw [poolNodes, namedPool_set hp hget hname hactive]
    exact hnode
  rw [arwsUpstreamAddNode] at h
  split at h
  · cases h
  · rename_i hport
    refine ⟨Int.not_le.1 hport, ?_⟩
    split at h
    · exact hin pools hfit h
    · simp only at h
      split at h
      · cases h
      · exact hin _ ((hostsFit_kept fun _ => True).keptByCalls.createPool hfit poolName .weightedRoundRobin) h

/-! ## An accepted node -/

/-- **A node that `arws_upstream_add_node` has accepted is read back from its URL exactly if its host has
no `:`, `/` or `?` in it and fits its field, and its port is at most 65535.** -/
theorem readBack_iff {pools pools' : List ArwsUpstreamPool} {poolName host : Bytes}
    {port weight isBackup : Int} (hreach : upstreams.Reach pools)
    (hadd : arwsUpstreamAddNode pools poolName host port weight isBackup = (pools', 0)) :
    ∃ node ∈ poolNodes pools' poolName, node.host = host.take 127 ∧ node.port = port ∧
      (parseTarget (nodeTarget node) 256 = some (host, port) ↔
        (∀ c ∈ host, isHostByte c = true) ∧ host.length ≤ 127 ∧ port ≤ 65535) := by
  have hfit := (hostsFit_kept fun _ => True).of_reach (reachUnder_setsFlag hreach)
  obtain ⟨hpos, node, hnode, hhost, rfl⟩ := mem_arwsUpstreamAddNode hfit hadd
  exact ⟨node, hnode, hhost, rfl, readBack_node_iff hhost hpos⟩

/-- For a host in a pool of its own, and its port. -/
theorem readBack_iff_http : ∃ pools', arwsUpstreamAddNode arwsUpstreamInit (ascii "web") (ascii "10.0.0.1")
      8080 1 0 = (pools', 0) ∧ ∃ node ∈ poolNodes pools' (ascii "web"),
    node.host = (ascii "10.0.0.1").take 127 ∧ node.port = 8080 ∧
      (parseTarget (nodeTarget node) 256 = some (ascii "10.0.0.1", 8080) ↔
        (∀ c ∈ ascii "10.0.0.1", isHostByte c = true) ∧ (ascii "10.0.0.1").length ≤ 127 ∧
          (8080 : Int) ≤ 65535) := by
  have hadd : (arwsUpstreamAddNode arwsUpstreamInit (ascii "web") (ascii "10.0.0.1") 8080 1 0).2 = 0 := by
    decide +kernel
  exact ⟨_, Prod.ext rfl hadd, readBack_iff (.start rfl) (Prod.ext rfl hadd)⟩

/-- **A port that is none is accepted**, and the URL of its node is refused. -/
theorem not_readBack : ¬ ∀ (pools pools' : List ArwsUpstreamPool) (poolName host : Bytes)
    (port weight isBackup : Int), upstreams.Reach pools →
      arwsUpstreamAddNode pools poolName host port weight isBackup = (pools', 0) →
      ∀ node ∈ poolNodes pools' poolName, node.host = host.take 127 → node.port = port →
        parseTarget (nodeTarget node) 256 = some (host, port) := by
  intro h
  have hadd : (arwsUpstreamAddNode arwsUpstreamInit (ascii "web") (ascii "a") 70000 1 0).2 = 0 := by
    decide +kernel
  have hback := h _ _ _ _ _ _ _ (.start rfl) (Prod.ext rfl hadd)
    (addedNode (ascii "a") 70000 1 0) (by decide +kernel) (by decide +kernel) rfl
  have hrefused : parseTarget (nodeTarget (addedNode (ascii "a") 70000 1 0)) 256 = none := by
    decide +kernel
  rw [hrefused] at hback
  cases hback

end Proxy
end Arws
