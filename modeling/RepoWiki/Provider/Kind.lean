namespace RepoWiki.Provider

inductive Kind where
  | embedder
  | llm
  | undefined
  | imageGeneration
  | embedding
  deriving DecidableEq, Repr

def Kind.label : Kind → String
  | .embedder => "ModelType.EMBEDDER"
  | .llm => "ModelType.LLM"
  | .undefined => "ModelType.UNDEFINED"
  | .imageGeneration => "ModelType.IMAGE_GENERATION"
  | .embedding => "ModelType.EMBEDDING"

end RepoWiki.Provider
