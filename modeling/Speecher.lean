import Speecher.Foundations.Machine
import Speecher.Foundations.Regex
import Speecher.Foundations.Splice
import Speecher.Foundations.Greedy
import Speecher.Bindings.Words
import Speecher.Bindings.Matcher
import Speecher.Bindings.Placeholders
import Speecher.Bindings.RoundTrip
import Speecher.Bindings.NoBindDirectives
import Speecher.Bindings.Pipeline
import Speecher.Bindings.KeptLiteral
import Speecher.Bindings.Android
import Speecher.Bindings.Accepted
import Speecher.Providers.Failure
import Speecher.Providers.SpeechChain
import Speecher.Providers.SpeechChainReports
import Speecher.Output.PasteRules
import Speecher.Output.TextDelivery
import Speecher.Output.DeliveryAnswers
import Speecher.Output.PasteSafety
import Speecher.Bindings.AndroidMatching
import Speecher.Foundations.Json
import Speecher.Settings.AndroidCorrections
import Speecher.Settings.Contradictions
import Speecher.App.IpcMessages
import Speecher.Settings.WritingProfiles
import Speecher.Foundations.JsonText
import Speecher.Foundations.Keyed
import Speecher.Settings.AppSettings
import Speecher.Settings.Vocabulary
import Speecher.Settings.Edits
import Speecher.Settings.EditedLists
import Speecher.Settings.SettingsFile
import Speecher.Settings.StoredReferences
import Speecher.App.IpcServer
import Speecher.App.IpcFraming
import Speecher.App.IpcSlots
import Speecher.Secrets.SecretStore
import Speecher.Foundations.RequestLine
import Speecher.Secrets.RequestLines
import Speecher.Secrets.Removals
import Speecher.Secrets.NewestRequest
import Speecher.Secrets.Keys
import Speecher.Secrets.ClearedKeys
import Speecher.App.ShortcutGesture
import Speecher.Audio.SilenceGate
import Speecher.Audio.AudioPcmConverter
import Speecher.Foundations.Blocks
import Speecher.Transcribe.Subtitles
import Speecher.Transcribe.SubtitleReader
import Speecher.Foundations.SharedHold
import Speecher.Setup.KeywatchDaemon
import Speecher.Setup.KeywatchHolds
import Speecher.Setup.KeywatchLimits
import Speecher.Foundations.ArgText
import Speecher.Foundations.Base64
import Speecher.Foundations.PercentEncoding
import Speecher.Foundations.Uri
import Speecher.Transfer.ImportLink
import Speecher.Transfer.SettingsBundle
import Speecher.Dictation.AndroidEngine
import Speecher.Dictation.AndroidAudio
import Speecher.Dictation.AndroidCommits
import Speecher.Foundations.Threads
import Speecher.Providers.StreamLifecycle
import Speecher.Providers.StreamEnds
import Speecher.Refinement.ServerSentEvents
import Speecher.Refinement.StreamingRefinement
import Speecher.Refinement.RefinementEnds
import Speecher.Refinement.RefinementEvents
import Speecher.Refinement.EventFraming
import Speecher.Refinement.DesktopReading
import Speecher.Refinement.StreamAgreement
import Speecher.Dictation.SelectionEditPresentation
import Speecher.Foundations.CommonSubsequence
import Speecher.Dictation.EditReviews
import Speecher.Foundations.BigEndian
import Speecher.Foundations.WebSocketFrame
import Speecher.Providers.WebSocketTransport
import Speecher.Providers.WebSocketReading
import Speecher.Settings.EvidenceTallies
import Speecher.Settings.AppRecognition
import Speecher.Foundations.KeyedMerge
import Speecher.Settings.AndroidVocabulary
import Speecher.Transfer.ComputerImport
import Speecher.Transfer.ImportMerges
import Speecher.Transcribe.TranscribeQueue
import Speecher.Foundations.Monitor
import Speecher.Providers.ServiceStream
import Speecher.Providers.ServiceSocket
import Speecher.Providers.ClaudeVoiceClient
import Speecher.Providers.CodexDictationClient
import Speecher.Providers.StreamClientEnds
import Speecher.Foundations.OnePass
import Speecher.Settings.VocabularyLimit
import Speecher.Settings.CsvRows
import Speecher.Settings.VocabularyMerges
import Speecher.Bindings.MatchChoice
import Speecher.Platform.CorrectionWindow
import Speecher.Bindings.Preview
import Speecher.Platform.MediaPauseController
import Speecher.Auth.TokenStore
import Speecher.Foundations.EditDistance
import Speecher.Foundations.Utf16
import Speecher.Foundations.Stretches
import Speecher.Transcribe.PeakLevels
import Speecher.Foundations.Streaks
import Speecher.Insights.InsightsSummary
import Speecher.Dictation.TranscriptState
import Speecher.Providers.SpeechAttempts
import Speecher.Transcribe.CueSplitting
import Speecher.Foundations.Alternation
import Speecher.Recording.RecordingSession
import Speecher.Providers.EndpointSpeechTranscriber
import Speecher.Platform.ChromiumLaunchers
import Speecher.Foundations.LineLog
import Speecher.Foundations.Utf8Decoding
import Speecher.Foundations.FlatObject
import Speecher.Foundations.LocalDateTime
import Speecher.Insights.InsightsLog
import Speecher.Insights.AndroidInsights
import Speecher.Foundations.Utf16Reading
import Speecher.Recording.RecordingTranscript
import Speecher.Foundations.Utf16Windows
import Speecher.Platform.NearbyText
import Speecher.Providers.OllamaPull
import Speecher.Foundations.SortedFields
import Speecher.Refinement.RefinementPrompt
import Speecher.Refinement.AndroidPrompt
import Speecher.Refinement.PromptsAlike
import Speecher.App.UpdateViewModel
import Speecher.Platform.PortalGlobalShortcutBinder
import Speecher.Platform.RemovedShortcut
import Speecher.Foundations.EditScripts
import Speecher.Settings.CorrectionDistance
import Speecher.Output.OutputMigration
import Speecher.Foundations.FormEncoding
import Speecher.Auth.OAuth
import Speecher.Foundations.SemanticVersions
import Speecher.App.ReleaseCheck
import Speecher.Foundations.NearestPoint
import Speecher.Foundations.RunSearch
import Speecher.Insights.BookComparison
import Speecher.Settings.GivenIds
import Speecher.App.CommandLineNames
import Speecher.App.CommandLine
import Speecher.App.CommandLineSeparator
import Speecher.Bindings.ReplacedAlike
import Speecher.Providers.RefinementChain
import Speecher.Providers.Cancellation
