import HttpExchange.Address.Literal
import HttpExchange.CommandLine
import HttpExchange.Main
import HttpExchange.Proofs.ChunkedBody
import HttpExchange.Proofs.Exchanges
import HttpExchange.Proofs.InterimResponses
import HttpExchange.Proofs.UrlRequests
import HttpExchange.Proofs.Usage
import HttpExchange.Session
import HttpExchange.Socket
import HttpExchange.Proofs.ReuseGuard
import HttpExchange.Proofs.PlainBodies
import HttpExchange.Proofs.ReadingToEnd
import HttpExchange.Proofs.Coalescing
import HttpExchange.Proofs.Base64Groups
import HttpExchange.Proofs.Numerals
import HttpExchange.Proofs.RequestParsing
import HttpExchange.Proofs.RoundTrip
import HttpExchange.Proofs.HeadLanguage
import HttpExchange.Proofs.HeadOutcome
import HttpExchange.Proofs.Carrying
import HttpExchange.Proofs.RetrySafety
import HttpExchange.Proofs.Lending
import HttpExchange.Proofs.Lease
import HttpExchange.Proofs.Handover
import HttpExchange.Proofs.SharedMemory
import HttpExchange.Proofs.Isolation
import HttpExchange.Proofs.Transcripts
import HttpExchange.Proofs.CommandRuns
import HttpExchange.Proofs.FramingDecision
import HttpExchange.Proofs.FailedRequests
import HttpExchange.Proofs.BodyFraming
import HttpExchange.Proofs.FramingLines
import HttpExchange.Proofs.InertReaders
import HttpExchange.Proofs.ReadAccounting
import HttpExchange.Proofs.HeaderCursor
import HttpExchange.Proofs.HeaderIteration
import HttpExchange.Proofs.ResourceTargets
import HttpExchange.Proofs.SingleUse
import HttpExchange.Proofs.Base64Standard
import HttpExchange.Proofs.Credentials
import HttpExchange.Proofs.ResponseMoves
import HttpExchange.Proofs.AddressText
import HttpExchange.Proofs.ServerNames
import HttpExchange.Proofs.LogLines
import HttpExchange.Proofs.ChunkSizes
