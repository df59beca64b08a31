import Arws.Bemf.Api
import Arws.Library.Paths
import Arws.Server.Target

/-!
# Only what is public is served

Whatever a client of Bemf sends, the answer is a matter of the files under `www/`: two file systems that agree
there make no difference.

* `Public` — a path that is opened leads into `www/`.
* `apiPluginHandler_safe`, `sendPage_safe` — every file that a handler serves has such a path.
* `handleClient_public` — so what a connection comes to depends on nothing but the files in `www/`.
-/

set_option autoImplicit false

namespace Arws
namespace Bemf

open CString Paths Server

/-- The directory that is served. -/
def www : Bytes := ascii "www"

/-- A path leads into the directory that is served, wherever the program runs. -/
def Public (path : Bytes) : Prop := ∀ cwd : Location, cwd ++ [www] <+: resolve cwd path

theorem parent_notInfix_of_safe {path : Bytes} (h : serverPathSafe path = true) : ¬ parent <:+: path := by
  intro hinfix
  have hcontains : contains (ascii "..") path = true := contains_iff.2 hinfix
  simp [serverPathSafe, hcontains] at h

/-- **A path under `www/`** is public if the server takes it for safe. -/
theorem public_of_safe {text : Bytes} (h : serverPathSafe (fullPath text) = true) : Public (fullPath text) := by
  have hpath : fullPath text = www ++ 47 :: text.take 507 := rfl
  have hparent := parent_notInfix_of_safe h
  rw [hpath] at hparent ⊢
  exact resolve_inside (by decide) (by decide) (by decide) hparent

/-- Files that are served are public. -/
def ServesPublic : Call → Session → Prop
  | .serveFile filepath _, _ => serverPathSafe filepath = true → Public filepath
  | _, _ => True

variable {out : Outside} {s : Session}

/-- A handler that serves public files only, whatever comes of it. -/
def Contained (handler : Handler) : Prop :=
  ∀ (out : Outside) (s : Session), handler.Safe (Call.perform out) ServesPublic s

theorem contained_done : Contained .done := fun _ _ => trivial

theorem contained_answerWith (status : Int) (contentType text : Bytes) :
    Contained (answerWith status contentType text) := fun _ _ => .of_call trivial fun _ _ => trivial

theorem contained_serverSend404 : Contained serverSend404 := contained_answerWith _ _ _

/-- **A file under `www/`** is served, and what follows is contained. -/
theorem contained_call {text contentType : Bytes} {next : Bool → Handler}
    (h : ∀ served, Contained (next served)) :
    Contained (.call (.serveFile (fullPath text) contentType) next) := fun out _ =>
  .of_call public_of_safe fun served s => h served out s

theorem contained_serveFile (text contentType : Bytes) : Contained (serveFile (fullPath text) contentType) :=
  contained_call fun _ => contained_done

theorem contained_sendAsset (folderName requestPath contentType : Bytes) :
    Contained (sendAsset folderName requestPath contentType) := by
  rw [sendAsset]
  split_ifs
  · exact contained_serverSend404
  · exact contained_serveFile _ _

/-- `send_page` serves public files, whatever the folder and the path are. -/
theorem contained_sendPage (folderName requestPath : Bytes) : Contained (sendPage folderName requestPath) := by
  rw [sendPage]
  split_ifs
  · exact contained_serverSend404
  · exact contained_serveFile _ _
  · exact contained_sendAsset _ _ _
  · exact contained_sendAsset _ _ _
  · exact contained_done

theorem contained_sendpage (access : Bytes → Bool) (folderName : Bytes) :
    Contained (sendpage access folderName) := by
  rw [sendpage]
  split_ifs
  · exact contained_serveFile _ _
  · exact contained_serveFile _ _
  · exact contained_serveFile _ _

theorem contained_serveStaticFile (path : Bytes) {next : Bool → Handler} (h : ∀ served, Contained (next served)) :
    Contained (serveStaticFile path next) := by
  rw [serveStaticFile]
  by_cases hsafe : (!pathIsSafe path) = true
  · rw [if_pos hsafe]
    exact h false
  · rw [if_neg hsafe]
    cases strrchr 46 path with
    | none => exact h false
    | some ext => exact contained_call h

/-! ## The routes -/

/-- All handlers of a table are contained. -/
def ContainedRoutes (table : RouteHash) : Prop := ∀ i, ∀ route ∈ table i, ∀ req, Contained (route.handler req)

theorem ContainedRoutes.add {table : RouteHash} (h : ContainedRoutes table) (newRoute : Route)
    (path method : Bytes) {handler : RouteHandler} (hhandler : ∀ req, Contained (handler req)) :
    ContainedRoutes (apiAddRoute table newRoute path method handler) := by
  intro i route hroute
  rw [apiAddRoute] at hroute
  by_cases hi : i = hashRoute path method
  · subst hi
    rw [Function.update_self] at hroute
    rcases List.mem_cons.1 hroute with rfl | hroute
    · exact hhandler
    · exact h _ route hroute
  · rw [Function.update_of_ne hi] at hroute
    exact h i route hroute

theorem containedRoutes_init (access : Bytes → Bool) (memory : Fin 5 → Route) :
    ContainedRoutes (apiPluginInit access memory) := by
  have hempty : ContainedRoutes fun _ => [] := fun _ _ h => nomatch h
  have hpages : ∀ folderName, HttpRequest → Contained (sendpage access folderName) :=
    fun folderName _ => contained_sendpage access folderName
  refine ((((hempty.add _ _ _ ?_).add _ _ _ ?_).add _ _ _ ?_).add _ _ _ ?_).add _ _ _ ?_
  · exact hpages _
  · exact hpages _
  · exact hpages _
  · exact hpages _
  · exact fun _ => contained_answerWith _ _ _

theorem contained_apiPluginHandler {table : RouteHash} (h : ContainedRoutes table) (req : HttpRequest) :
    Contained (apiPluginHandler table req) := by
  refine contained_serveStaticFile req.path fun served => ?_
  split_ifs
  · exact contained_done
  · cases hroute : findRoute table req with
    | none => exact contained_serverSend404
    | some route => exact h _ route (List.mem_of_find?_eq_some hroute) req

/-! ## Two file systems -/

/-- What is in a file system, by its place. -/
structure Tree where
  /-- The file at a place, if it can be opened and measured. -/
  file : Location → Option Bytes
  /-- `access` finds something there. -/
  access : Location → Bool

/-- The server of Bemf over a file system. -/
def bemf (env : Shared) (tree : Tree) (cwd : Location) (memory : Fin 5 → Route) : Shared :=
  { env with
    file := fun path => tree.file (resolve cwd path)
    apiHandler := some (apiPluginHandler (apiPluginInit (fun path => tree.access (resolve cwd path)) memory)) }

/-- The file systems agree on what is public. -/
def SamePublic (cwd : Location) (tree tree' : Tree) : Prop :=
  ∀ place, cwd ++ [www] <+: place → tree.file place = tree'.file place ∧ tree.access place = tree'.access place

variable {cwd : Location} {tree tree' : Tree}

/-- The pages of a folder are looked for in public. -/
theorem SamePublic.sendpage_eq (h : SamePublic cwd tree tree') {folderName : Bytes}
    (hsafe : ∀ page ∈ [ascii "/index.html", ascii "/main.html"],
      serverPathSafe (fullPath (folderName ++ page)) = true) :
    sendpage (fun path => tree.access (resolve cwd path)) folderName =
      sendpage (fun path => tree'.access (resolve cwd path)) folderName := by
  have hindex := (h _ (public_of_safe (hsafe _ List.mem_cons_self) cwd)).2
  have hmain := (h _ (public_of_safe (hsafe _ (List.mem_cons_of_mem _ (List.mem_singleton_self _))) cwd)).2
  simp only [sendpage, hindex, hmain]

theorem SamePublic.init_eq (h : SamePublic cwd tree tree') (memory : Fin 5 → Route) :
    apiPluginInit (fun path => tree.access (resolve cwd path)) memory =
      apiPluginInit (fun path => tree'.access (resolve cwd path)) memory := by
  have hhome : homeHandler (fun path => tree.access (resolve cwd path)) =
      homeHandler (fun path => tree'.access (resolve cwd path)) := funext fun _ => h.sendpage_eq (by decide)
  have hlogin : managerLoginHandler (fun path => tree.access (resolve cwd path)) =
      managerLoginHandler (fun path => tree'.access (resolve cwd path)) := funext fun _ => h.sendpage_eq (by decide)
  have hdashboard : managerDashboardHandler (fun path => tree.access (resolve cwd path)) =
      managerDashboardHandler (fun path => tree'.access (resolve cwd path)) :=
    funext fun _ => h.sendpage_eq (by decide)
  simp only [apiPluginInit, hhome, hlogin, hdashboard]

theorem SamePublic.bemf_eq (h : SamePublic cwd tree tree') (env : Shared) (memory : Fin 5 → Route) :
    bemf env tree' cwd memory =
      { bemf env tree cwd memory with file := fun path => tree'.file (resolve cwd path) } := by
  simp only [bemf, h.init_eq memory]

/-- A call that serves public files only does the same in both. -/
theorem SamePublic.perform_eq (h : SamePublic cwd tree tree') (env : Shared) (memory : Fin 5 → Route) (c : Call)
    (s : Session) (hc : ServesPublic c s) :
    Call.perform (bemf env tree cwd memory).toOutside c s =
      Call.perform (bemf env tree' cwd memory).toOutside c s := by
  cases c with
  | serveFile filepath contentType =>
    cases hsafe : serverPathSafe filepath with
    | false =>
      simp only [Call.perform, serverServeFile, hsafe, Bool.not_false, if_true]
      rfl
    | true =>
      have hfile := (h _ (hc hsafe cwd)).1
      simp only [Call.perform, serverServeFile, bemf, hfile]
      rfl
  | _ => rfl

theorem SamePublic.runIn_eq (h : SamePublic cwd tree tree') (env : Shared) (memory : Fin 5 → Route)
    {handler : Handler} (hhandler : Contained handler) (s : Session) :
    handler.runIn (bemf env tree cwd memory) s = handler.runIn (bemf env tree' cwd memory) s :=
  Program.run_congr (h.perform_eq env memory) (hhandler _ s)

/-- **What a connection comes to** is a matter of the public files: whatever the client sends, all that is sent to
it and logged for it is the same over two file systems that agree on them. -/
theorem handleClient_public (h : SamePublic cwd tree tree') (env : Shared) (memory : Fin 5 → Route) (job : Job)
    (s : Session) :
    handleClient (bemf env tree cwd memory) job s = handleClient (bemf env tree' cwd memory) job s := by
  rw [handleClient, handleClient]
  cases job.arrival with
  | dropped => rfl
  | undefined => rfl
  | refused status text => exact h.runIn_eq env memory (contained_answerWith _ _ _) s
  | request path req =>
    have hrespond : ∀ clientIp, respond (bemf env tree' cwd memory) clientIp req =
        respond (bemf env tree cwd memory) clientIp req := fun clientIp => by
      rw [h.bemf_eq env memory]
      rfl
    have hcontained : ∀ clientIp, Contained (respond (bemf env tree cwd memory) clientIp req) := by
      intro clientIp
      rw [respond]
      split_ifs
      · exact contained_answerWith _ _ _
      · exact contained_apiPluginHandler (containedRoutes_init _ memory) req
    simp only [hrespond]
    refine congrArg (Option.bind _) (funext fun s => ?_)
    exact h.runIn_eq env memory (hcontained _) s

/-! ## A secret -/

private def secretReceived : ReadState :=
  readTurn .start ⟨none, some (ascii "GET /index.html HTTP/1.1\r\n\r\n"), true, 0⟩

private def secretJob : Job where
  mode := .insecure
  clientIp := ascii "192.0.2.1"
  ssl := false
  handshake := false
  buffer := true
  received := ⟨secretReceived, .next (.start rfl) trivial (if_pos ⟨rfl, by rw [ascii_eq rfl]; decide⟩),
    by decide +kernel⟩
  parse := ⟨true, true⟩

private def plainEnv : Shared where
  logger := false
  written _ := 1
  received _ := none
  file _ := none
  fileSent _ content := content.length
  trustedProxies := []
  behindCf := false
  random := none
  ratelimitCheck _ _ _ := true
  apiHandler := none

private def plainSession : Session :=
  ⟨⟨.insecure, false, [], [], CharArray.ofString 1023 [], CharArray.ofString 64 []⟩, [], [], none⟩

/-- A page, and a file outside of the directory. -/
private def treeWith (secret : Bytes) : Tree where
  file place :=
    if place = [ascii "srv", www, ascii "index.html"] then some (ascii "page")
    else if place = [ascii "srv", ascii "key.pem"] then some secret
    else none
  access _ := true

private theorem treeWith_samePublic (secret secret' : Bytes) :
    SamePublic [ascii "srv"] (treeWith secret) (treeWith secret') := by
  rintro place ⟨more, rfl⟩
  have hne : [ascii "srv"] ++ [www] ++ more ≠ [ascii "srv", ascii "key.pem"] := by
    intro he
    exact absurd (List.cons.inj (List.cons.inj he).2).1 (by decide)
  simp only [treeWith, if_neg hne, and_self]

private def secretBemf (secret : Bytes) : Shared :=
  bemf plainEnv (treeWith secret) [ascii "srv"] fun _ => ⟨.ofString 255 [], .ofString 15 [], fun _ => .done⟩

/-- The page is served, whatever the secret is. -/
theorem handleClient_public_secret :
    (handleClient (secretBemf (ascii "a")) secretJob plainSession).map (fun s => s.sent.length) = some 2 ∧
      handleClient (secretBemf (ascii "a")) secretJob plainSession =
        handleClient (secretBemf (ascii "b")) secretJob plainSession :=
  ⟨by decide +kernel, handleClient_public (treeWith_samePublic _ _) plainEnv _ secretJob plainSession⟩

end Bemf
end Arws
