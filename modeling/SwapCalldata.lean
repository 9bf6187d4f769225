import SwapCalldata.Buffer
import SwapCalldata.Main
import SwapCalldata.Proofs.Agreement
import SwapCalldata.Proofs.LegInstruction
import SwapCalldata.Proofs.Cache
import SwapCalldata.Proofs.Reference
import SwapCalldata.Proofs.Compilation
import SwapCalldata.Proofs.Partition
import SwapCalldata.Proofs.Acceptance
import SwapCalldata.Proofs.Decoding
import SwapCalldata.Proofs.Layout
import SwapCalldata.Proofs.Refusal
import SwapCalldata.Proofs.FundRouting
import SwapCalldata.Proofs.Revisions
import SwapCalldata.Proofs.Reordering
import SwapCalldata.Proofs.CacheRun
import SwapCalldata.Proofs.Noninterference
import SwapCalldata.Proofs.Extension
import SwapCalldata.Proofs.LegChecks
import SwapCalldata.Proofs.WireMeaning
import SwapCalldata.Proofs.WireFaults
import SwapCalldata.Proofs.Overriding
import SwapCalldata.Proofs.JsonText
import SwapCalldata.Proofs.JsonRoundTrip
import SwapCalldata.Proofs.WireRoundTrip
import SwapCalldata.Proofs.Rounding
import SwapCalldata.Proofs.ShortestDigits
import SwapCalldata.Proofs.ShortDecimals
import SwapCalldata.Proofs.Rereading
import SwapCalldata.Proofs.Recognition
import SwapCalldata.Proofs.AppendRun
import SwapCalldata.Proofs.CanonicalText
import SwapCalldata.Proofs.Slippage
import SwapCalldata.Proofs.WireImage
import SwapCalldata.Proofs.Words
import SwapCalldata.Proofs.AddressGrammar
import SwapCalldata.Proofs.AddressReaders
import SwapCalldata.Proofs.AmountGrammar
import SwapCalldata.Proofs.Configuration
import SwapCalldata.Proofs.Fallback
import SwapCalldata.Proofs.NearestEven
import SwapCalldata.Proofs.ExactValue
import SwapCalldata.Proofs.Shares
import SwapCalldata.Proofs.StepwiseScaling
