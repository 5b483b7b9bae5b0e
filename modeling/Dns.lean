import Dns.Json.Forms
import Dns.Name.Frozen
import Dns.Proofs.Coverage
import Dns.Proofs.Footprints
import Dns.Proofs.Histories
import Dns.Proofs.Keyrings
import Dns.Proofs.Limits
import Dns.Proofs.Padding
import Dns.Proofs.ReadData
import Dns.Proofs.Rerendered
import Dns.Proofs.Reservations
import Dns.Proofs.Rootless
import Dns.Proofs.SignedOctets
import Dns.Proofs.Streams
import Dns.Proofs.Texts
import Dns.Proofs.Presentation
import Dns.Proofs.Sections
import Dns.Proofs.SerialWords
import Dns.Proofs.SetPrograms
import Dns.Tsig.Keyring
import Dns.Proofs.Suffixes
import Dns.Proofs.Trails
import Dns.Proofs.Recipes
import Dns.Proofs.Parents
import Dns.Proofs.Caseless
import Dns.Proofs.CanonicalForms
import Dns.Proofs.Algebra
import Dns.Proofs.RecordSets
import Dns.Proofs.CanonicalData
import Dns.Proofs.Stores
import Dns.Proofs.Codes
import Dns.Proofs.LatestKeys
import Dns.Proofs.Times
