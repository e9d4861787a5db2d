import RepoWiki.Wiki.Cache

namespace RepoWiki.Endpoint.Overview

/-! ## Models -/

def model (id name : String) : Json :=
  .obj [("id", .str id), ("name", .str name)]

def provider (id name : String) (open? : Option Bool) (models : List Json) : Json :=
  .obj [("id", .str id), ("name", .str name), ("models", .arr models),
    ("supportsCustomModel", .ofOption (open?.map Json.bool))]

def catalogue (providers : List Json) (usual : String) : Json :=
  .obj [("providers", .arr providers), ("defaultProvider", .str usual)]

def fallback : Json :=
  catalogue [provider "google" "Google" (some true) [model "gemini-2.5-flash" "Gemini 2.5 Flash"]]
    "google"

def keysOf (v : Json) : Result (List String) :=
  match v with
  | .obj fields => .ok (Fields.keys fields)
  | v => .error (.attribute v.kindName "keys")

def configuredProvider (entry : String × Json) : Result Json := do
  let models ← keysOf (← entry.2.item "models")
  let choice ← entry.2.getD "supportsCustomModel" (.bool false)
  let open? ← Form.outcome "Provider" (Form.optional Form.truth choice)
  return provider entry.1 (Text.capitalize entry.1) open? (models.map fun m => model m m)

def configured (settings : Fields) : Result Json := do
  let usual := (Fields.get? "default_provider" settings).getD (.str "google")
  let providers ← match Fields.get? "providers" settings with
    | some (.obj entries) => entries.mapM configuredProvider
    | some v => .error (.attribute v.kindName "items")
    | none => .error (.key (.str "providers"))
  return catalogue providers (← Form.outcome "Models" (Form.text usual))

def models (settings : Fields) : Json :=
  match configured settings with
  | .ok v => v
  | .error _ => fallback

/-! ## State -/

def languages (settings : Fields) : Result Json :=
  match Fields.get? "lang_config" settings with
  | some v => .ok v
  | none => .error (.key (.str "lang_config"))

def guardState (g : Wiki.Cache.Guard) : Json :=
  .obj [("auth_required", g.on)]

def checkCode (g : Wiki.Cache.Guard) (request : Json) : Result Json := do
  let f ← Form.body "Authorization" request
  let code ← Form.outcome "Authorization" (Form.required "code" Form.text f)
  return .obj [("success", .bool (g.code.same (.str code)))]

def health (now : Clock) : Json :=
  .obj [("status", .str "healthy"), ("timestamp", .str now.iso), ("service", .str "deepwiki-api")]

def chatWelcome : Json :=
  .obj [("status", .str "API is running"),
    ("message", .str "Navigate to /docs for API documentation")]

/-! ## Addresses -/

/-- An address that the service answers; one without methods is not for browsers. -/
structure Route where
  path : Option Json
  methods : Option (List String)

def unlisted : List String :=
  ["/openapi.json", "/docs", "/redoc", "/favicon.ico"]

def groupOf (path : String) : String :=
  match (Text.splitOn "/" (Text.trimBy (· = '/') path)).head? with
  | some "" | none => "Root"
  | some part => Text.capitalize part

def linesOf (r : Route) : Result (List (String × String)) :=
  match r.path, r.methods with
  | some (.str path), some methods =>
      if unlisted.contains path then .ok []
      else
        .ok ((methods.eraseDups.filter fun m => m != "HEAD" && m != "OPTIONS").map fun m =>
          (groupOf path, m ++ " " ++ path))
  | some v, some _ => .error (.attribute v.kindName "strip")
  | _, _ => .ok []

def grouped (lines : List (String × String)) : Fields :=
  (lines.map (·.1)).eraseDups.map fun group =>
    (group, Json.texts ((lines.filter fun l => l.1 == group).map (·.2)).mergeSort)

def addresses (routes : List Route) : Result Json := do
  let lines ← routes.mapM linesOf
  return .obj [("message", .str "Welcome to Streaming API"), ("version", .str "1.0.0"),
    ("endpoints", .obj (grouped lines.flatten))]

end RepoWiki.Endpoint.Overview
