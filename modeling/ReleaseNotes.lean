import ReleaseNotes.Proofs.Drafts
import ReleaseNotes.Main
import ReleaseNotes.Proofs.History.Range
import ReleaseNotes.Proofs.Placement
import ReleaseNotes.Proofs.Reading
import ReleaseNotes.Proofs.History.Latest
import ReleaseNotes.Proofs.Outcome
import ReleaseNotes.Proofs.Renumbering
import ReleaseNotes.Proofs.Succession
import ReleaseNotes.Proofs.Rearrangement
import ReleaseNotes.Proofs.Interleaving
import ReleaseNotes.Proofs.Regeneration
import ReleaseNotes.Proofs.Wording
import ReleaseNotes.Proofs.History.Order
import ReleaseNotes.Proofs.History.Tags
import ReleaseNotes.Proofs.Listing
import ReleaseNotes.Proofs.Substitution
import ReleaseNotes.Proofs.Settings.Spelling
import ReleaseNotes.Proofs.CommandLine.Effects
import ReleaseNotes.Proofs.Repetition
import ReleaseNotes.Proofs.Segments
import ReleaseNotes.Proofs.Settings.Reordering
import ReleaseNotes.Proofs.Settings.Omission
import ReleaseNotes.Proofs.Occurrences
import ReleaseNotes.Proofs.Contributors
import ReleaseNotes.Proofs.Precedence
import ReleaseNotes.Proofs.Openings
import ReleaseNotes.Proofs.Arrangement
import ReleaseNotes.Proofs.History.Failure
import ReleaseNotes.Proofs.Steps
import ReleaseNotes.Proofs.Bodies
import ReleaseNotes.Proofs.Slots
import ReleaseNotes.Proofs.CommandLine.Request
