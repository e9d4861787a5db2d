import RepoWiki.Config.Loader
import RepoWiki.Conversation
import RepoWiki.Endpoint.Overview
import RepoWiki.Main
import RepoWiki.Proofs.Endpoint.Analysis
import RepoWiki.Proofs.Index.Provenance
import RepoWiki.Proofs.Provider.Component
import RepoWiki.Server
import RepoWiki.Proofs.Index.Validation
import RepoWiki.Proofs.Ollama
import RepoWiki.Proofs.Provider.Refill
import RepoWiki.Proofs.Wiki.ListedFile
import RepoWiki.Proofs.EventStream.Ending
import RepoWiki.Proofs.Outline.Declaration
import RepoWiki.Proofs.Outline.Dependencies
import RepoWiki.Proofs.Outline.GoHeaders
import RepoWiki.Proofs.Outline.PythonReading
import RepoWiki.Proofs.Index.Rules
import RepoWiki.Proofs.Repository.Masking
import RepoWiki.Proofs.Repository.AddressForms
import RepoWiki.Proofs.Config.Placeholders
import RepoWiki.Proofs.Index.FilePatterns
import RepoWiki.Proofs.Repository.Requests
import RepoWiki.Proofs.Chat.Topic
import RepoWiki.Proofs.Wiki.Export
import RepoWiki.Proofs.Chat.Grouping
import RepoWiki.Proofs.Endpoint.LocalRepository
import RepoWiki.Proofs.Provider.TaggedPrompt
import RepoWiki.Proofs.WikiStructure
import RepoWiki.Proofs.Logging
