import Arws.Library.Buckets
import Arws.Library.CharArray
import Arws.Server.HandleClient

/-!
# The pages of Bemf

`api.c`: a request is answered with a file under `www/` if its path names one, else by the handler of its
route, else with 404.

The routes are a hash table of chains; a route is the memory that was allocated for it, as in `router_ex.c`.
A handler is the program that answers a request.
-/

set_option autoImplicit false

namespace Arws
namespace Bemf

open CString Server

/-- `path_is_safe`. -/
def pathIsSafe (path : Bytes) : Bool :=
  !path.isEmpty && !contains (ascii "..") path && !path.contains 92 && path.getLast? != some 46

/-- The text from the last of these bytes on, as `strrchr` finds it. -/
def strrchr (c : UInt8) (s : Bytes) : Option Bytes :=
  if s.contains c then some (c :: (s.reverse.takeWhile (· != c)).reverse) else none

/-! ## Routes -/

/-- `RouteHandler`. -/
abbrev RouteHandler := HttpRequest → Handler

/-- `Route`. -/
structure Route where
  path : CharArray 256
  method : CharArray 16
  handler : RouteHandler

/-- `ROUTE_HASH_SIZE`. -/
abbrev routeHashSize : ℕ := 128

/-- `route_hash`. -/
abbrev RouteHash := Fin routeHashSize → List Route

/-- `hash_route`. -/
def hashRoute (path method : Bytes) : Fin routeHashSize :=
  Fin.ofNat routeHashSize ((path ++ method).foldl
    (fun (hash : UInt32) c => ((hash <<< 5) + hash) + promotedChar c) 5381).toNat

/-- What `api_add_route` writes to the memory of a route. -/
def Route.written (newRoute : Route) (path method : Bytes) (handler : RouteHandler) : Route :=
  ⟨newRoute.path.strncpy path, newRoute.method.strncpy method, handler⟩

/-- `api_add_route`, with the memory that was allocated. -/
def apiAddRoute (table : RouteHash) (newRoute : Route) (path method : Bytes) (handler : RouteHandler) :
    RouteHash :=
  Function.update table (hashRoute path method)
    (newRoute.written path method handler :: table (hashRoute path method))

/-! ## Files -/

/-- `full_path`. -/
def fullPath (text : Bytes) : Bytes := (ascii "www/" ++ text).take 511

/-- `server_send_404`. -/
def serverSend404 : Handler := answerWith 404 (ascii "text/html") (ascii "<h1>404 Not Found</h1>")

/-- `server_serve_file` as the last call. -/
def serveFile (filepath contentType : Bytes) : Handler := .call (.serveFile filepath contentType) fun _ => .done

/-- The name behind the last slash. -/
def filename (requestPath : Bytes) : Bytes := ((strrchr 47 requestPath).map List.tail).getD requestPath

/-- A script or a style sheet of a page. -/
def sendAsset (folderName requestPath contentType : Bytes) : Handler :=
  if !pathIsSafe (filename requestPath) then serverSend404
  else serveFile (fullPath (folderName ++ ascii "/" ++ filename requestPath)) contentType

/-- `send_page`. -/
def sendPage (folderName requestPath : Bytes) : Handler :=
  if !pathIsSafe requestPath then serverSend404
  else if !requestPath.contains 46 then
    serveFile (fullPath (folderName ++ ascii "/" ++ folderName ++ ascii ".html")) (ascii "text/html")
  else if contains (ascii ".js") requestPath then
    sendAsset folderName requestPath (ascii "application/javascript")
  else if contains (ascii ".css") requestPath then sendAsset folderName requestPath (ascii "text/css")
  else .done

/-- The content type for what `strrchr` finds from the last dot on. -/
def contentType (ext : Bytes) : Bytes :=
  if ext = ascii ".html" then ascii "text/html"
  else if ext = ascii ".css" then ascii "text/css"
  else if ext = ascii ".js" then ascii "application/javascript"
  else if ext = ascii ".png" then ascii "image/png"
  else if ext = ascii ".jpg" ∨ ext = ascii ".jpeg" then ascii "image/jpeg"
  else ascii "text/plain"

/-- `serve_static_file`, and what follows. -/
def serveStaticFile (path : Bytes) (next : Bool → Handler) : Handler :=
  if !pathIsSafe path then next false
  else match strrchr 46 path with
    | none => next false
    | some ext =>
      let cleanPath := if path.head? = some 47 then path.tail else path
      .call (.serveFile (fullPath cleanPath) (contentType ext)) next

/-- The route that `api_plugin_handler` finds. -/
def findRoute (table : RouteHash) (req : HttpRequest) : Option Route :=
  (table (hashRoute req.path req.method)).find? fun current =>
    current.path.text == req.path && current.method.text == req.method

/-- `api_plugin_handler`. -/
def apiPluginHandler (table : RouteHash) (req : HttpRequest) : Handler :=
  serveStaticFile req.path fun served =>
    if served then .done
    else match findRoute table req with
      | some current => current.handler req
      | none => serverSend404

/-- `sendpage`, for the answers of `access`. -/
def sendpage (access : Bytes → Bool) (folderName : Bytes) : Handler :=
  let indexHtml := fullPath (folderName ++ ascii "/index.html")
  let mainHtml := fullPath (folderName ++ ascii "/main.html")
  let distHtml := fullPath (folderName ++ ascii "/dist/index.html")
  let path := if access indexHtml then indexHtml else if access mainHtml then mainHtml else distHtml
  serveFile path (ascii "text/html")

/-- `home_handler`. -/
def homeHandler (access : Bytes → Bool) : RouteHandler := fun _ => sendpage access (ascii "home")

/-- `manager_login_handler`. -/
def managerLoginHandler (access : Bytes → Bool) : RouteHandler :=
  fun _ => sendpage access (ascii "manager/login")

/-- `manager_dashboard_handler`. -/
def managerDashboardHandler (access : Bytes → Bool) : RouteHandler :=
  fun _ => sendpage access (ascii "manager/dashboard")

/-- `api_data_handler`. -/
def apiDataHandler : RouteHandler := fun _ =>
  answerWith 200 (ascii "application/json")
    (ascii "\x7b\"status\": \"success\", \"message\": \"Bemf HTTP server running on ALRIOS!\"\x7d")

/-- `api_plugin_init`, with the memory for its five routes. -/
def apiPluginInit (access : Bytes → Bool) (memory : Fin 5 → Route) : RouteHash :=
  let table := apiAddRoute (fun _ => []) (memory 0) (ascii "/") (ascii "GET") (homeHandler access)
  let table := apiAddRoute table (memory 1) (ascii "/home") (ascii "GET") (homeHandler access)
  let table := apiAddRoute table (memory 2) (ascii "/manager/login") (ascii "GET") (managerLoginHandler access)
  let table := apiAddRoute table (memory 3) (ascii "/manager/dashboard") (ascii "GET")
    (managerDashboardHandler access)
  apiAddRoute table (memory 4) (ascii "/api/data") (ascii "GET") apiDataHandler

end Bemf
end Arws
