import RepoWiki.Json.Basic

namespace RepoWiki.Config.Shipped

def steady : Json :=
  .obj [("temperature", .real 0.7), ("top_p", .real 0.8)]

def free : Json :=
  .obj [("temperature", .real 1.0)]

def sampled : Json :=
  .obj [("temperature", .real 1.0), ("top_p", .real 0.8), ("top_k", .int 20)]

def hosted (context : Nat) : Json :=
  .obj [("options", .obj [("temperature", .real 0.7), ("top_p", .real 0.8),
    ("num_ctx", .nat context)])]

def provider (client : Option String) (default : String) (models : Fields) : Json :=
  .obj ((client.elim [] fun name => [("client_class", Json.str name)]) ++
    [("default_model", .str default), ("supportsCustomModel", .bool true),
      ("models", .obj models)])

def generator : Json :=
  .obj [("default_provider", .str "google"), ("providers", .obj [
    ("dashscope", provider none "qwen-plus" [
      ("qwen-plus", steady), ("qwen-turbo", steady), ("deepseek-r1", steady)]),
    ("google", provider none "gemini-2.5-flash" [
      ("gemini-2.5-flash", sampled), ("gemini-2.5-flash-lite", sampled),
      ("gemini-2.5-pro", sampled)]),
    ("openai", provider none "gpt-5-nano" [
      ("gpt-5", free), ("gpt-5-nano", free), ("gpt-5-mini", free), ("gpt-4o", steady),
      ("gpt-4.1", steady), ("o1", steady), ("o3", free), ("o4-mini", free)]),
    ("openrouter", provider none "openai/gpt-5-nano" [
      ("openai/gpt-5-nano", steady), ("openai/gpt-4o", steady), ("deepseek/deepseek-r1", steady),
      ("openai/gpt-4.1", steady), ("openai/o1", steady), ("openai/o3", free),
      ("openai/o4-mini", free), ("anthropic/claude-3.7-sonnet", steady),
      ("anthropic/claude-3.5-sonnet", steady)]),
    ("ollama", provider none "qwen3:1.7b" [
      ("qwen3:1.7b", hosted 32000), ("llama3:8b", hosted 8000), ("qwen3:8b", hosted 32000)]),
    ("bedrock", provider (some "BedrockClient") "anthropic.claude-3-sonnet-20240229-v1:0" [
      ("anthropic.claude-3-sonnet-20240229-v1:0", steady),
      ("anthropic.claude-3-haiku-20240307-v1:0", steady),
      ("anthropic.claude-3-opus-20240229-v1:0", steady),
      ("amazon.titan-text-express-v1", steady), ("cohere.command-r-v1:0", steady),
      ("ai21.j2-ultra-v1", steady)]),
    ("azure", provider (some "AzureAIClient") "gpt-4o" [
      ("gpt-4o", steady), ("gpt-4", steady), ("gpt-35-turbo", steady), ("gpt-4-turbo", steady)])])]

def embedder : Json :=
  .obj [
    ("embedder", .obj [
      ("client_class", .str "OpenAIClient"),
      ("batch_size", .int 500),
      ("model_kwargs", .obj [
        ("model", .str "text-embedding-3-small"),
        ("dimensions", .int 256),
        ("encoding_format", .str "float")])]),
    ("retriever", .obj [("top_k", .int 20)]),
    ("text_splitter", .obj [
      ("split_by", .str "word"),
      ("chunk_size", .int 350),
      ("chunk_overlap", .int 100)])]

def excludedDirectories : List String := [
  "./.venv/", "./venv/", "./env/", "./virtualenv/", "./node_modules/", "./bower_components/",
  "./jspm_packages/", "./.git/", "./.svn/", "./.hg/", "./.bzr/"]

def excludedFiles : List String := [
  "yarn.lock", "pnpm-lock.yaml", "npm-shrinkwrap.json", "poetry.lock", "Pipfile.lock",
  "requirements.txt.lock", "Cargo.lock", "composer.lock", ".lock", ".DS_Store", "Thumbs.db",
  "desktop.ini", "*.lnk", ".env", ".env.*", "*.env", "*.cfg", "*.ini", ".flaskenv", ".gitignore",
  ".gitattributes", ".gitmodules", ".github", ".gitlab-ci.yml", ".prettierrc", ".eslintrc",
  ".eslintignore", ".stylelintrc", ".editorconfig", ".jshintrc", ".pylintrc", ".flake8",
  "mypy.ini", "pyproject.toml", "tsconfig.json", "webpack.config.js", "babel.config.js",
  "rollup.config.js", "jest.config.js", "karma.conf.js", "vite.config.js", "next.config.js",
  "*.min.js", "*.min.css", "*.bundle.js", "*.bundle.css", "*.map", "*.gz", "*.zip", "*.tar",
  "*.tgz", "*.rar", "*.7z", "*.iso", "*.dmg", "*.img", "*.msix", "*.appx", "*.appxbundle",
  "*.xap", "*.ipa", "*.deb", "*.rpm", "*.msi", "*.exe", "*.dll", "*.so", "*.dylib", "*.o",
  "*.obj", "*.jar", "*.war", "*.ear", "*.jsm", "*.class", "*.pyc", "*.pyd", "*.pyo",
  "__pycache__", "*.a", "*.lib", "*.lo", "*.la", "*.slo", "*.dSYM", "*.egg", "*.egg-info",
  "*.dist-info", "*.eggs", "node_modules", "bower_components", "jspm_packages", "lib-cov",
  "coverage", "htmlcov", ".nyc_output", ".tox", "dist", "build", "bld", "out", "bin", "target",
  "packages/*/dist", "packages/*/build", ".output"]

def repository : Json :=
  .obj [("file_filters", .obj [("excluded_dirs", Json.texts excludedDirectories),
    ("excluded_files", Json.texts excludedFiles)]),
    ("repository", .obj [("max_size_mb", .int 50000)])]

def languages : List (String × String) := [
  ("en", "English"),
  ("ja", "Japanese (日本語)"),
  ("zh", "Mandarin Chinese (中文)"),
  ("zh-tw", "Traditional Chinese (繁體中文)"),
  ("es", "Spanish (Español)"),
  ("kr", "Korean (한국어)"),
  ("vi", "Vietnamese (Tiếng Việt)"),
  ("pt-br", "Brazilian Portuguese (Português Brasileiro)"),
  ("fr", "Français (French)"),
  ("ru", "Русский (Russian)")]

def languageSettings : Json :=
  .obj [("supported_languages", .obj (languages.map fun (code, name) => (code, .str name))),
    ("default", .str "en")]

end RepoWiki.Config.Shipped
