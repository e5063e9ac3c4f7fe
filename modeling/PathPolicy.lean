import PathPolicy.Files.World
import PathPolicy.Main
import PathPolicy.Proofs.Agreement
import PathPolicy.Proofs.Histories
import PathPolicy.Proofs.TableDecoding
import PathPolicy.Proofs.RuleTexts
import PathPolicy.Proofs.Strictness
import PathPolicy.Proofs.TextIdentity
import PathPolicy.Proofs.Columns
import PathPolicy.Proofs.Rereading
import PathPolicy.Proofs.SelfTest
import PathPolicy.Proofs.Changes
import PathPolicy.Proofs.SecondReadings
import PathPolicy.Proofs.Locking
import PathPolicy.Proofs.Outcomes
import PathPolicy.Proofs.Minimality
import PathPolicy.Proofs.CanonicalText
import PathPolicy.Proofs.Decompilation
import PathPolicy.Proofs.Variants
import PathPolicy.Proofs.Orders
import PathPolicy.Proofs.CheckedReduction
import PathPolicy.Proofs.Displacement
import PathPolicy.Proofs.Reloading
import PathPolicy.Proofs.CheckedLookup
import PathPolicy.Proofs.NormalForms
import PathPolicy.Proofs.KeptLines
import PathPolicy.Proofs.Spellings
import PathPolicy.Proofs.Trampolines
import PathPolicy.Proofs.AttributeTexts
import PathPolicy.Proofs.Nesting
import PathPolicy.Proofs.Layout
import PathPolicy.Proofs.PartialOutput
import PathPolicy.Proofs.TestEffects
